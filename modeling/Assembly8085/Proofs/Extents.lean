import Assembly8085.Proofs.Origin

/-!
# Where statements end

A statement ends with one of its tokens, none of its leaves ends behind it, and the next statement
starts behind it. An instruction ends with its line or, if its line is at fault, with its last leaf.
Whether the line is at fault is said without the reading: some token that stands on it is out of
order.
-/
namespace Assembly8085

/-- Of tokens one behind the other, none ends behind the last. -/
theorem Token.stop_le_of_getLast? {tokens : List Token} {token last : Token}
    (ordered : tokens.Pairwise (·.stop ≤ ·.position)) (final : tokens.getLast? = some last)
    (member : token ∈ tokens) : token.stop ≤ last.stop := by
  obtain ⟨earlier, rfl⟩ := List.getLast?_eq_some_iff.mp final
  have apart := (List.pairwise_append.mp ordered).2.2
  have length : last.position ≤ last.stop := Nat.le_add_right ..
  rcases List.mem_append.mp member with inside | same
  · have before := apart token inside last (List.mem_singleton_self last)
    omega
  · exact Nat.le_of_eq (congrArg Token.stop (List.mem_singleton.mp same))

namespace Draft

variable (draft : Draft) (faulty : Bool) (stop : Nat)

/-- However its line ends, an instruction has the leaves of its draft. -/
@[simp] theorem leaves_ended :
    (draft.ended faulty stop).leaves = draft.target :: draft.operands := by
  cases faulty <;> rfl

/-- The last of the leaves of a draft is its last operand, or its target. -/
theorem getLast?_leaves :
    (draft.target :: draft.operands).getLast? = some (draft.operands.getLastD draft.target) := by
  rw [List.getLast?_cons, List.getLastD_eq_getLast?]

/-- An instruction whose line is at fault ends with its last leaf. -/
theorem stop_ended : (draft.ended faulty stop).stop =
    if faulty then (draft.operands.getLastD draft.target).stop else stop := by
  cases faulty <;> rfl

/-- However its line ends, an instruction holds what its draft does. -/
theorem ended_eq : draft.ended faulty stop =
    .instruction draft.target draft.operands (draft.ended faulty stop).stop := by
  cases faulty <;> rfl

end Draft

namespace Reading

/-- A draft reaches no further than the tokens read, and all of them end in front of that, unless
their line is discarded. -/
theorem Opened.exists_reach {read : List Token} {reading : Reading} {draft : Draft}
    (opened : Opened read reading) (held : reading.draft? = some draft)
    (sound : reading.isDiscarding = false) :
    ∃ last, read.getLast? = some last ∧ draft.reach = last.stop :=
  (opened.passes sound).2 draft held

namespace Origin

variable {tokens : List Token} {statement : Statement}

/-- The leaves of a statement are tokens in their order. -/
theorem leaves_sublist (origin : Origin tokens statement) :
    statement.leaves.Sublist tokens := by
  cases origin with
  | label whole start opened each mark =>
    rw [whole]
    exact List.singleton_sublist.mpr (by simp)
  | ended whole start opened held mark =>
    rw [whole, Draft.leaves_ended]
    exact (opened.leaves held).2.trans
      ((List.sublist_append_left ..).trans (List.sublist_append_right ..))
  | unended whole start opened held =>
    rw [whole, Draft.leaves_ended]
    exact (opened.leaves held).2.trans (List.sublist_append_right ..)

/-- A statement ends with a token, and none of its leaves ends behind that. -/
theorem exists_stop (origin : Origin tokens statement)
    (ordered : tokens.Pairwise (·.stop ≤ ·.position)) :
    ∃ last ∈ tokens, statement.stop = last.stop ∧
      ∀ leaf ∈ statement.leaves, leaf.stop ≤ last.stop := by
  have inOrder : statement.leaves.Pairwise (·.stop ≤ ·.position) :=
    ordered.sublist origin.leaves_sublist
  have among := origin.leaves_sublist.subset
  cases origin with
  | @label before spaces after colon draft whole start opened each mark =>
    rw [whole, ← List.append_assoc, List.pairwise_append] at ordered
    have apart := ordered.2.2 draft.target (by simp) colon (by simp)
    have length : colon.position ≤ colon.stop := Nat.le_add_right ..
    refine ⟨colon, by simp [whole], rfl, ?_⟩
    intro leaf member
    rw [List.mem_singleton.mp member]
    omega
  | @ended before read after terminator reading draft whole start opened held mark =>
    rw [Draft.leaves_ended] at inOrder among ⊢
    by_cases faulty : (reading.isDiscarding || (reading.step terminator).notice.isSome) = true
    · rw [Draft.stop_ended, if_pos faulty]
      refine ⟨_, among (List.mem_of_getLast? draft.getLast?_leaves), rfl, ?_⟩
      exact fun leaf member => Token.stop_le_of_getLast? inOrder draft.getLast?_leaves member
    · rw [Draft.stop_ended, if_neg faulty]
      refine ⟨terminator, by simp [whole], rfl, ?_⟩
      intro leaf member
      have read := (opened.leaves held).2.subset member
      rw [whole, ← List.append_assoc, List.pairwise_append] at ordered
      have apart := ordered.2.2 leaf (List.mem_append_right _ read) terminator
        (List.mem_cons_self ..)
      have length : terminator.position ≤ terminator.stop := Nat.le_add_right ..
      omega
  | @unended before read reading draft whole start opened held =>
    rw [Draft.leaves_ended] at inOrder among ⊢
    by_cases faulty : (reading.isDiscarding || reading.finish.notice.isSome) = true
    · rw [Draft.stop_ended, if_pos faulty]
      refine ⟨_, among (List.mem_of_getLast? draft.getLast?_leaves), rfl, ?_⟩
      exact fun leaf member => Token.stop_le_of_getLast? inOrder draft.getLast?_leaves member
    · rw [Draft.stop_ended, if_neg faulty]
      rw [Bool.not_eq_true, Bool.or_eq_false_iff] at faulty
      obtain ⟨last, final, reach⟩ := opened.exists_reach held faulty.1
      rw [whole, List.pairwise_append] at ordered
      refine ⟨last, by simp [whole, List.mem_of_getLast? final], reach, ?_⟩
      intro leaf member
      have read := (opened.leaves held).2.subset member
      exact Token.stop_le_of_getLast? ordered.2.1 final read

end Origin

/-- No token of the others starts in front of where the last leaf of the instruction that has been
read in part ends. -/
def Behind (reading : Reading) (tokens : List Token) : Prop :=
  ∀ draft, reading.draft? = some draft →
    ∀ token ∈ tokens, (draft.operands.getLastD draft.target).stop ≤ token.position

/-- A step keeps the others behind what has been read. -/
theorem Behind.step {reading : Reading} {token : Token} {others : List Token}
    (behind : reading.Behind (token :: others))
    (ordered : ∀ other ∈ others, token.stop ≤ other.position) :
    (reading.step token).reading.Behind others := by
  intro draft there other member
  rcases draft?_step there with ⟨before, held, rfl | rfl | ⟨_, rfl⟩⟩ | ⟨_, rfl⟩
  · exact behind _ held other (List.mem_cons_of_mem _ member)
  · exact behind _ held other (List.mem_cons_of_mem _ member)
  · simpa [Draft.add] using ordered other member
  · exact ordered other member

/-- A statement that a token completes ends at the latest with the token. -/
theorem Behind.stop_le {reading : Reading} {token : Token} {others : List Token}
    {statement : Statement} (behind : reading.Behind (token :: others))
    (complete : (reading.step token).statement = some statement) :
    statement.stop ≤ token.stop := by
  obtain ⟨draft, held, same⟩ := statement_step complete
  have reached := behind draft held token (List.mem_cons_self ..)
  have length : token.position ≤ token.stop := Nat.le_add_right ..
  rcases same with rfl | rfl | rfl
  · exact Nat.le_refl _
  · exact Nat.le_refl _
  · exact Nat.le_trans reached length

/-- Each statement of a run ends in front of the next one. -/
theorem Behind.pairwise {reading : Reading} {tokens : List Token}
    (behind : reading.Behind tokens) (ordered : tokens.Pairwise (·.stop ≤ ·.position)) :
    (reading.statements tokens).Pairwise (·.stop ≤ ·.start) := by
  induction tokens generalizing reading with
  | nil =>
    rw [statements]
    cases reading.finish.statement with
    | none => exact .nil
    | some statement => exact List.pairwise_singleton ..
  | cons token others ih =>
    obtain ⟨apart, ordered⟩ := List.pairwise_cons.mp ordered
    have later := ih (behind.step apart) ordered
    rw [statements]
    cases complete : (reading.step token).statement with
    | none => exact later
    | some statement =>
      obtain ⟨draft, held, _⟩ := statement_step complete
      rw [(step_complete held complete).1] at later ⊢
      refine List.pairwise_cons.mpr ⟨?_, later⟩
      intro next member
      have sound := sound_statements (by simp [draft?]) apart next member
      have start : token.stop ≤ next.start := by
        cases next <;> exact sound.leaves _ (List.mem_cons_self ..)
      exact Nat.le_trans (behind.stop_le complete) start

end Reading

/-- The token that ends the line from an offset on: the first terminator at it or behind it. -/
def lineEnd? (tokens : List Token) (offset : Nat) : Option Token :=
  tokens.find? fun token => decide (token.kind = .terminator ∧ offset ≤ token.position)

/-- A position is on the line from an offset on: it is not in front of the offset, and not behind
the terminator that ends the line. -/
def OnLineFrom (tokens : List Token) (offset position : Nat) : Prop :=
  offset ≤ position ∧
    ∀ terminator, lineEnd? tokens offset = some terminator → position ≤ terminator.position

namespace Reading.Opened

variable {before read behind tokens : List Token} {reading : Reading} {draft : Draft}
  {last : Token}

/-- The tokens read of a statement start with its target, so those in front of them start in front
of the target. -/
theorem position_lt (opened : Opened read reading) (held : reading.draft? = some draft)
    (ordered : (before ++ (read ++ behind)).Pairwise (·.position < ·.position)) :
    (∀ token ∈ before, token.position < draft.target.position) ∧
      ∀ token ∈ read, draft.target.position ≤ token.position := by
  obtain ⟨others, rfl⟩ := List.head?_eq_some_iff.mp (opened.leaves held).1
  obtain ⟨_, later, apart⟩ := List.pairwise_append.mp ordered
  refine ⟨fun token member => apart token member draft.target (by simp), ?_⟩
  intro token member
  rcases List.mem_cons.mp member with rfl | other
  · exact Nat.le_refl _
  · have first := (List.pairwise_cons.mp (List.pairwise_append.mp later).1).1 token other
    exact Nat.le_of_lt first

/-- The first terminator behind the start of a statement is the one behind what has been read of
it. -/
theorem lineEnd?_eq_some (opened : Opened read reading) (held : reading.draft? = some draft)
    {terminator : Token} (mark : terminator.kind = .terminator)
    (ordered : (before ++ (read ++ terminator :: behind)).Pairwise (·.position < ·.position)) :
    lineEnd? (before ++ (read ++ terminator :: behind)) draft.target.position =
      some terminator := by
  obtain ⟨earlier, _⟩ := opened.position_lt held ordered
  have target : draft.target ∈ read := List.mem_of_head? (opened.leaves held).1
  have apart := (List.pairwise_append.mp (List.pairwise_append.mp ordered).2.1).2.2
    draft.target target terminator (List.mem_cons_self ..)
  refine List.find?_eq_some_iff_append.mpr
    ⟨by simpa [mark] using Nat.le_of_lt apart, before ++ read, behind, by simp, ?_⟩
  intro token member
  rcases List.mem_append.mp member with front | inside
  · have before := earlier token front
    simp only [Bool.not_eq_true', decide_eq_false_iff_not, not_and]
    omega
  · have other := opened.kind_ne_terminator token inside
    simp [other]

/-- Behind the start of a statement that goes up to the end of the source there is no
terminator. -/
theorem lineEnd?_eq_none (opened : Opened read reading) (held : reading.draft? = some draft)
    (final : last.kind ≠ .terminator)
    (ordered : (before ++ (read ++ [last])).Pairwise (·.position < ·.position)) :
    lineEnd? (before ++ (read ++ [last])) draft.target.position = none := by
  obtain ⟨earlier, _⟩ := opened.position_lt held ordered
  rw [lineEnd?, List.find?_eq_none]
  intro token member
  rw [decide_eq_true_eq, not_and]
  intro mark
  rcases List.mem_append.mp member with front | behind
  · have before := earlier token front
    omega
  · rcases List.mem_append.mp behind with inside | same
    · exact absurd mark (opened.kind_ne_terminator token inside)
    · rw [List.mem_singleton.mp same] at mark
      exact absurd mark final

/-- Of the tokens that have been read of a statement one is out of order exactly if the line is
discarded. -/
theorem exists_rejected_iff (opened : Opened read reading) :
    (∃ token, token ∈ betweenStatements.rejected read) ↔ reading.isDiscarding = true := by
  constructor
  · rintro ⟨token, member⟩
    by_contra sound
    have silent := (opened.passes (Bool.not_eq_true _ ▸ sound)).1.notices
    rw [← rejected_eq_nil_iff] at silent
    rw [silent] at member
    contradiction
  · intro discards
    exact List.exists_mem_of_ne_nil _ (opened.rejected_ne_nil discards).1

/-- Of the tokens out of order that are in front of a statement, in it, at the token that closes its
line and behind that, one stands between the start of the statement and the closing token exactly if
the line is discarded or the closing token itself is out of order. -/
theorem exists_between_iff (opened : Opened read reading) (held : reading.draft? = some draft)
    {closing : Token} {rest others : List Token} (noticed : Bool)
    (ordered : (before ++ (read ++ closing :: rest)).Pairwise (·.position < ·.position))
    (among : others ⊆ rest) :
    (∃ token ∈ betweenStatements.rejected before ++ (betweenStatements.rejected read ++
          ((if noticed then [closing] else []) ++ others)),
        draft.target.position ≤ token.position ∧ token.position ≤ closing.position) ↔
      (reading.isDiscarding || noticed) = true := by
  obtain ⟨earlier, inside⟩ := opened.position_lt held ordered
  obtain ⟨_, line, _⟩ := List.pairwise_append.mp ordered
  obtain ⟨_, close, apart⟩ := List.pairwise_append.mp line
  have later := (List.pairwise_cons.mp close).1
  rw [Bool.or_eq_true, ← opened.exists_rejected_iff]
  constructor
  · rintro ⟨token, member, low, high⟩
    simp only [List.mem_append] at member
    rcases member with front | held | here | behind
    · have early := earlier token (rejected_subset _ _ front)
      omega
    · exact .inl ⟨token, held⟩
    · split at here
      · exact .inr ‹_›
      · contradiction
    · have late := later token (among behind)
      omega
  · rintro (⟨token, rejected⟩ | noticed)
    · have member := rejected_subset _ _ rejected
      have front := apart token member closing (List.mem_cons_self ..)
      exact ⟨token, by simp [rejected], inside token member, Nat.le_of_lt front⟩
    · have target : draft.target ∈ read := List.mem_of_head? (opened.leaves held).1
      have front := apart draft.target target closing (List.mem_cons_self ..)
      exact ⟨closing, by simp [noticed], Nat.le_of_lt front, Nat.le_refl _⟩

end Reading.Opened

/-- Some token out of order stands on the line from an offset on. -/
def FaultFrom (last : Token) (tokens : List Token) (offset : Nat) : Prop :=
  ∃ token ∈ Reading.betweenStatements.refused last tokens,
    OnLineFrom (tokens ++ [last]) offset token.position

namespace Reading.Opened

variable {before read behind : List Token} {reading : Reading} {draft : Draft} {last : Token}
  (opened : Opened read reading) (held : reading.draft? = some draft)
  (start : betweenStatements.advance before = .betweenStatements)

include opened held start

/-- The line of an instruction up to its terminator is at fault exactly if it is discarded or the
terminator is out of order. -/
theorem faultFrom_iff_of_ended {terminator : Token} (mark : terminator.kind = .terminator)
    (ordered : (before ++ (read ++ terminator :: behind) ++ [last]).Pairwise
      (·.position < ·.position)) :
    FaultFrom last (before ++ (read ++ terminator :: behind)) draft.target.position ↔
      (reading.isDiscarding || (reading.step terminator).notice.isSome) = true := by
  simp only [List.append_assoc, List.cons_append] at ordered
  have ends := opened.lineEnd?_eq_some held mark ordered
  have between := opened.exists_between_iff held (reading.step terminator).notice.isSome ordered
    ((reading.step terminator).reading.refused_subset last behind)
  have parts : betweenStatements.refused last (before ++ (read ++ terminator :: behind)) =
      betweenStatements.rejected before ++ (betweenStatements.rejected read ++
        ((if (reading.step terminator).notice.isSome then [terminator] else []) ++
          (reading.step terminator).reading.refused last behind)) := by
    rw [refused_eq, refused_eq, rejected_append, rejected_append, advance_append, advance_append,
      start, opened.advance, rejected, advance_cons]
    simp only [List.append_assoc]
  rw [← between, ← parts]
  simp [FaultFrom, OnLineFrom, ends]

/-- The line of an instruction up to the end of the source is at fault exactly if it is discarded
or the end is out of order. -/
theorem faultFrom_iff_of_unended (final : last.kind ≠ .terminator)
    (ordered : (before ++ read ++ [last]).Pairwise (·.position < ·.position)) :
    FaultFrom last (before ++ read) draft.target.position ↔
      (reading.isDiscarding || reading.finish.notice.isSome) = true := by
  have behind (token : Token) (member : token ∈ before ++ read) : token.position ≤ last.position :=
    Nat.le_of_lt ((List.pairwise_append.mp ordered).2.2 token member last
      (List.mem_singleton_self last))
  simp only [List.append_assoc] at ordered
  have ends := opened.lineEnd?_eq_none held final ordered
  have between := opened.exists_between_iff held reading.finish.notice.isSome ordered
    (List.Subset.refl [])
  have parts : betweenStatements.refused last (before ++ read) =
      betweenStatements.rejected before ++ (betweenStatements.rejected read ++
        ((if reading.finish.notice.isSome then [last] else []) ++ [])) := by
    rw [refused_eq, rejected_append, advance_append, start, opened.advance, List.append_nil,
      List.append_assoc]
  have upTo (token : Token) (member : token ∈ betweenStatements.refused last (before ++ read)) :
      token.position ≤ last.position := by
    rcases List.mem_append.mp (refused_subset _ _ _ member) with inside | same
    · exact behind token inside
    · exact Nat.le_of_eq (congrArg Token.position (List.mem_singleton.mp same))
  rw [← between, ← parts]
  constructor
  · rintro ⟨token, member, low, _⟩
    exact ⟨token, member, low, upTo token member⟩
  · rintro ⟨token, member, low, _⟩
    refine ⟨token, member, low, fun terminator same => ?_⟩
    rw [List.append_assoc, ends] at same
    contradiction

end Reading.Opened

/-- An instruction whose line is at fault from its start on ends with its last leaf. Any other one
ends with the terminator of its line or, if there is none, with the last token of the source. -/
theorem Reading.Origin.stop_eq {tokens operands : List Token} {target last : Token} {stop : Nat}
    (origin : Origin tokens (.instruction target operands stop)) (final : last.kind ≠ .terminator)
    (ordered : (tokens ++ [last]).Pairwise (·.position < ·.position)) :
    (FaultFrom last tokens target.position → stop = (operands.getLastD target).stop) ∧
      (¬ FaultFrom last tokens target.position →
        match lineEnd? (tokens ++ [last]) target.position with
        | some terminator => stop = terminator.stop
        | none => ∃ token, tokens.getLast? = some token ∧ stop = token.stop) := by
  generalize same : Statement.instruction target operands stop = statement at origin
  cases origin with
  | label => contradiction
  | @ended before read after terminator reading draft whole start opened held mark =>
    rw [Draft.ended_eq, Draft.stop_ended] at same
    obtain ⟨rfl, rfl, rfl⟩ := Statement.instruction.inj same
    subst whole
    have fault := opened.faultFrom_iff_of_ended held start mark ordered
    have ends : lineEnd? (before ++ (read ++ terminator :: after) ++ [last])
        draft.target.position = some terminator := by
      simp only [List.append_assoc, List.cons_append] at ordered ⊢
      exact opened.lineEnd?_eq_some held mark ordered
    rw [fault, ends]
    exact ⟨fun faulty => if_pos faulty, fun sound => if_neg sound⟩
  | @unended before read reading draft whole start opened held =>
    rw [Draft.ended_eq, Draft.stop_ended] at same
    obtain ⟨rfl, rfl, rfl⟩ := Statement.instruction.inj same
    subst whole
    have fault := opened.faultFrom_iff_of_unended held start final ordered
    have ends : lineEnd? (before ++ read ++ [last]) draft.target.position = none := by
      rw [List.append_assoc] at ordered ⊢
      exact opened.lineEnd?_eq_none held final ordered
    rw [fault, ends]
    refine ⟨fun faulty => if_pos faulty, fun sound => ?_⟩
    rw [if_neg sound]
    rw [Bool.not_eq_true, Bool.or_eq_false_iff] at sound
    obtain ⟨token, last, reach⟩ := opened.exists_reach held sound.1
    refine ⟨token, ?_, reach⟩
    rw [List.getLast?_append, last]
    rfl

end Assembly8085
