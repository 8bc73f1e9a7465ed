import Mathlib.Data.List.Induction
import Assembly8085.Proofs.Discarding

/-!
# Where statements come from

A statement is completed by a token or by the end of the source. The tokens that have led there
from its first one on are what has been read of its line. They hold its leaves, and none of them
ends the line. Unless one of them is out of order, nothing is said about them.
-/
namespace Assembly8085

/-- The instruction whose line ends at an offset; where the line is at fault, it is kept as far as
it was read. -/
def Draft.ended (draft : Draft) (faulty : Bool) (stop : Nat) : Statement :=
  if faulty then draft.keep else draft.close stop

namespace Reading

/-- The tokens that are out of order. -/
def rejected (reading : Reading) : List Token → List Token
  | [] => []
  | token :: others =>
    (if (reading.step token).notice.isSome then [token] else []) ++
      (reading.step token).reading.rejected others

/-- The tokens out of order of two lists are those of the first and then those of the second. -/
theorem rejected_append (reading : Reading) (first second : List Token) :
    reading.rejected (first ++ second) =
      reading.rejected first ++ (reading.advance first).rejected second := by
  induction first generalizing reading with
  | nil => rfl
  | cons token others ih =>
    simp only [List.cons_append, rejected, advance_cons, ih, List.append_assoc]

/-- Besides the tokens only the end of the source can be out of order. -/
theorem refused_eq (reading : Reading) (last : Token) (tokens : List Token) :
    reading.refused last tokens =
      reading.rejected tokens ++
        if (reading.advance tokens).finish.notice.isSome then [last] else [] := by
  induction tokens generalizing reading with
  | nil => rfl
  | cons token others ih =>
    rw [refused, rejected, ih, List.append_assoc]
    rfl

/-- The tokens that are out of order are among those that are read. -/
theorem rejected_subset (reading : Reading) (tokens : List Token) :
    reading.rejected tokens ⊆ tokens := by
  induction tokens generalizing reading with
  | nil => exact List.Subset.refl _
  | cons token others ih =>
    intro other member
    rcases List.mem_append.mp member with here | behind
    · split at here
      · rw [List.mem_singleton.mp here]
        exact List.mem_cons_self ..
      · contradiction
    · exact List.mem_cons_of_mem _ (ih _ behind)

/-- Nothing is said about tokens exactly if none of them is out of order. -/
theorem rejected_eq_nil_iff (reading : Reading) (tokens : List Token) :
    reading.rejected tokens = [] ↔ reading.notices tokens = [] := by
  induction tokens generalizing reading with
  | nil => exact ⟨fun _ => rfl, fun _ => rfl⟩
  | cons token others ih =>
    rw [rejected, notices, List.append_eq_nil_iff, List.append_eq_nil_iff, ih]
    cases (reading.step token).notice <;> simp

/-- The last of tokens is read behind the others. -/
theorem advance_concat (reading : Reading) (tokens : List Token) (token : Token) :
    reading.advance (tokens ++ [token]) = ((reading.advance tokens).step token).reading := by
  rw [advance_append, advance_cons, advance_nil]

/-- A token that completes no statement does not end the line. It is passed over or becomes an
operand, it is out of order, or it is discarded with its line. -/
theorem step_incomplete {reading : Reading} {draft : Draft} {token : Token}
    (held : reading.draft? = some draft) (incomplete : (reading.step token).statement = none) :
    token.kind ≠ .terminator ∧
      ((reading.isDiscarding = false ∧ (reading.step token).reading.isDiscarding = false ∧
          (reading.step token).notice = none ∧
          (reading.step token).reading.draft? = some (draft.pass token)) ∨
        (reading.isDiscarding = false ∧ token.kind.isLiteral = true ∧
          reading.step token = .onward (.afterOperand (draft.add token))) ∨
        (reading.isDiscarding = false ∧ (reading.step token).notice.isSome = true ∧
          (reading.step token).reading = .discarding (some draft)) ∨
        (reading = .discarding (some draft) ∧ reading.step token = .onward reading)) := by
  cases reading <;> cases kind : token.kind <;>
    simp_all [step, Step.onward, Step.complete, Step.refuse, TokenKind.isLiteral, draft?,
      isDiscarding]

/-- A token that completes a statement is the colon of a label or ends the line of an instruction.
Either way nothing is left of the line. -/
theorem step_complete {reading : Reading} {draft : Draft} {token : Token} {statement : Statement}
    (held : reading.draft? = some draft)
    (complete : (reading.step token).statement = some statement) :
    (reading.step token).reading = .betweenStatements ∧
      ((reading = .afterTarget draft ∧ token.kind = .colon ∧
          (reading.step token).notice = none ∧ statement = .label draft.target token.stop) ∨
        (token.kind = .terminator ∧ statement =
          draft.ended (reading.isDiscarding || (reading.step token).notice.isSome)
            token.stop)) := by
  cases reading <;> cases kind : token.kind <;>
    simp_all [step, Step.onward, Step.complete, Step.refuse, draft?, isDiscarding, Draft.ended]

/-- Where nothing was held, a statement is started by an identifier between two statements. -/
theorem step_starts {reading : Reading} {token : Token} {draft : Draft}
    (free : reading.draft? = none) (held : (reading.step token).reading.draft? = some draft) :
    reading = .betweenStatements ∧ token.kind = .identifier := by
  cases reading <;> cases kind : token.kind <;>
    simp_all [step, Step.onward, Step.refuse, TokenKind.isTrivia, draft?]

/-- A target alone is left by the space behind it. -/
theorem step_eq_afterTarget {reading : Reading} {token : Token} {draft : Draft}
    (started : reading ≠ .betweenStatements)
    (target : (reading.step token).reading = .afterTarget draft) :
    ∃ before, reading = .afterTarget before ∧ token.kind = .space ∧
      draft = before.pass token := by
  cases reading <;> cases kind : token.kind <;>
    simp_all [step, Step.onward, Step.complete, Step.refuse]

/-- A terminator completes an instruction. -/
theorem step_of_terminator {reading : Reading} {draft : Draft} {token : Token}
    (held : reading.draft? = some draft) (mark : token.kind = .terminator) :
    reading.step token =
      ⟨.betweenStatements,
        some (draft.ended (reading.isDiscarding || (reading.step token).notice.isSome) token.stop),
        (reading.step token).notice⟩ := by
  cases reading <;>
    simp_all [step, Step.complete, Step.refuse, draft?, isDiscarding, Draft.ended]

/-- The end of the source completes an instruction. -/
theorem finish_complete {reading : Reading} {draft : Draft} (held : reading.draft? = some draft) :
    reading.finish.statement =
      some (draft.ended (reading.isDiscarding || reading.finish.notice.isSome) draft.reach) := by
  cases reading <;> simp_all [finish, draft?, isDiscarding, Draft.ended]

/-- Tokens from the first one of a statement on that have led to a reading without completing
it. -/
inductive Opened : List Token → Reading → Prop
  /-- A statement starts with an identifier. -/
  | start {token : Token} (identifier : token.kind = .identifier) :
    Opened [token] (.afterTarget (.start token))
  /-- One more token is read. -/
  | next {read : List Token} {reading : Reading} (opened : Opened read reading) (token : Token)
    (incomplete : (reading.step token).statement = none) :
    Opened (read ++ [token]) (reading.step token).reading

namespace Opened

variable {read : List Token} {reading : Reading}

/-- Something has been read of the statement. -/
theorem exists_draft (opened : Opened read reading) : ∃ draft, reading.draft? = some draft := by
  induction opened with
  | start identifier => exact ⟨_, rfl⟩
  | next opened token incomplete ih =>
    obtain ⟨draft, held⟩ := ih
    have taken := (step_incomplete held incomplete).2
    rcases taken with passed | ⟨_, _, added⟩ | ⟨_, _, refused⟩ | ⟨same, discarded⟩
    · exact ⟨_, passed.2.2.2⟩
    · exact ⟨_, by rw [added]; rfl⟩
    · exact ⟨_, by rw [refused]; rfl⟩
    · exact ⟨draft, by rw [discarded]; exact held⟩

/-- None of the tokens ends the line. -/
theorem kind_ne_terminator (opened : Opened read reading) (token : Token)
    (member : token ∈ read) : token.kind ≠ .terminator := by
  induction opened with
  | start identifier =>
    rw [List.mem_singleton.mp member, identifier]
    decide
  | next opened other incomplete ih =>
    obtain ⟨draft, held⟩ := opened.exists_draft
    rcases List.mem_append.mp member with earlier | last
    · exact ih earlier
    · rw [List.mem_singleton.mp last]
      exact (step_incomplete held incomplete).1

/-- Unless the line is discarded, nothing is said about the tokens, and the draft reaches as far as
they do. -/
theorem passes (opened : Opened read reading) (sound : reading.isDiscarding = false) :
    betweenStatements.Passes read reading [] ∧
      ∀ draft, reading.draft? = some draft →
        ∃ last, read.getLast? = some last ∧ draft.reach = last.stop := by
  induction opened with
  | @start token identifier =>
    have first : betweenStatements.step token = ⟨.afterTarget (.start token), none, none⟩ := by
      simp [step, identifier, Step.onward]
    refine ⟨Passes.cons token first (passes_nil _), ?_⟩
    intro draft held
    obtain rfl := Option.some.inj held
    exact ⟨token, rfl, rfl⟩
  | @next read reading opened token incomplete ih =>
    obtain ⟨draft, held⟩ := opened.exists_draft
    have one (earlier : reading.isDiscarding = false)
        (silent : (reading.step token).notice = none) :
        betweenStatements.Passes (read ++ [token]) (reading.step token).reading [] := by
      have here : reading.step token = ⟨(reading.step token).reading, none, none⟩ := by
        rw [← incomplete, ← silent]
      exact (ih earlier).1.append (Passes.cons token here (passes_nil _))
    rcases (step_incomplete held incomplete).2 with
      ⟨earlier, _, silent, passed⟩ | ⟨earlier, _, added⟩ | ⟨_, _, refused⟩ | ⟨same, discarded⟩
    · refine ⟨one earlier silent, ?_⟩
      intro after there
      obtain rfl := Option.some.inj (passed.symm.trans there)
      exact ⟨token, List.getLast?_concat .., rfl⟩
    · refine ⟨one earlier (by rw [added]; rfl), ?_⟩
      rw [added]
      intro after there
      obtain rfl := Option.some.inj there
      exact ⟨token, List.getLast?_concat .., rfl⟩
    · rw [refused] at sound
      contradiction
    · rw [discarded, same] at sound
      contradiction

/-- A line is discarded because one of its tokens is out of order. -/
theorem rejected_ne_nil (opened : Opened read reading) (discards : reading.isDiscarding = true) :
    betweenStatements.rejected read ≠ [] ∧ betweenStatements.advance read = reading := by
  induction opened with
  | start identifier => contradiction
  | @next read reading opened token incomplete ih =>
    obtain ⟨draft, held⟩ := opened.exists_draft
    rw [rejected_append, advance_concat]
    rcases (step_incomplete held incomplete).2 with
      ⟨_, sound, _⟩ | ⟨_, _, added⟩ | ⟨earlier, noticed, refused⟩ | ⟨same, discarded⟩
    · rw [sound] at discards
      contradiction
    · rw [added] at discards
      contradiction
    · rw [(opened.passes earlier).1.advance]
      refine ⟨?_, rfl⟩
      simp [rejected, noticed]
    · obtain ⟨some, there⟩ := ih (by rw [same]; rfl)
      rw [there]
      exact ⟨fun none => some (List.append_eq_nil_iff.mp none).1, rfl⟩

/-- The tokens lead to the reading. -/
theorem advance (opened : Opened read reading) : betweenStatements.advance read = reading := by
  by_cases discards : reading.isDiscarding = true
  · exact (opened.rejected_ne_nil discards).2
  · exact (opened.passes (Bool.not_eq_true _ ▸ discards)).1.advance

/-- A statement has been started. -/
theorem ne_betweenStatements (opened : Opened read reading) : reading ≠ .betweenStatements := by
  rintro rfl
  obtain ⟨draft, held⟩ := opened.exists_draft
  contradiction

/-- Behind a target alone there is nothing but space. -/
theorem spaces (opened : Opened read reading) {draft : Draft}
    (target : reading = .afterTarget draft) :
    ∃ spaces, read = draft.target :: spaces ∧ ∀ token ∈ spaces, token.kind = .space := by
  induction opened generalizing draft with
  | start identifier =>
    obtain rfl := Reading.afterTarget.inj target
    exact ⟨[], rfl, by simp⟩
  | @next read reading opened token incomplete ih =>
    obtain ⟨before, same, space, rfl⟩ := step_eq_afterTarget opened.ne_betweenStatements target
    obtain ⟨spaces, rfl, each⟩ := ih same
    refine ⟨spaces ++ [token], rfl, ?_⟩
    intro other member
    rcases List.mem_append.mp member with earlier | last
    · exact each other earlier
    · rw [List.mem_singleton.mp last]
      exact space

/-- The target is the first of the tokens, and it stands in front of the operands among them. -/
theorem leaves (opened : Opened read reading) {draft : Draft} (held : reading.draft? = some draft) :
    read.head? = some draft.target ∧ (draft.target :: draft.operands).Sublist read := by
  induction opened generalizing draft with
  | @start token identifier =>
    obtain rfl := Option.some.inj held
    exact ⟨rfl, List.Sublist.refl _⟩
  | @next read reading opened token incomplete ih =>
    obtain ⟨before, heldBefore⟩ := opened.exists_draft
    obtain ⟨head, among⟩ := ih heldBefore
    have first : (read ++ [token]).head? = some before.target := by
      rw [List.head?_append, head]
      rfl
    have longer : (before.target :: before.operands).Sublist (read ++ [token]) :=
      among.trans (List.sublist_append_left ..)
    rcases (step_incomplete heldBefore incomplete).2 with
      ⟨_, _, _, passed⟩ | ⟨_, _, added⟩ | ⟨_, _, refused⟩ | ⟨same, discarded⟩
    · obtain rfl := Option.some.inj (passed.symm.trans held)
      exact ⟨first, longer⟩
    · rw [added] at held
      obtain rfl := Option.some.inj held
      exact ⟨first, among.append (List.Sublist.refl [token])⟩
    · rw [refused] at held
      obtain rfl := Option.some.inj held
      exact ⟨first, longer⟩
    · rw [discarded, same] at held
      obtain rfl := Option.some.inj held
      exact ⟨first, longer⟩

/-- The tokens up to the last leaf make the instruction that is kept, and nothing is said about
them. -/
theorem kept (opened : Opened read reading) {draft : Draft} (held : reading.draft? = some draft) :
    ∃ own behind after, read = own ++ behind ∧
      own.getLast? = some (draft.operands.getLastD draft.target) ∧
      betweenStatements.Passes own after [] ∧ after.finish = ⟨some draft.keep, none, false⟩ := by
  induction opened generalizing draft with
  | @start token identifier =>
    obtain rfl := Option.some.inj held
    exact ⟨[token], [], _, rfl, rfl, ((Opened.start identifier).passes rfl).1, rfl⟩
  | @next read reading opened token incomplete ih =>
    obtain ⟨before, heldBefore⟩ := opened.exists_draft
    obtain ⟨own, behind, after, whole, last, passes, ending⟩ := ih heldBefore
    have longer : read ++ [token] = own ++ (behind ++ [token]) := by
      rw [whole, List.append_assoc]
    rcases (step_incomplete heldBefore incomplete).2 with
      ⟨_, _, _, passed⟩ | ⟨_, _, added⟩ | ⟨_, _, refused⟩ | ⟨same, discarded⟩
    · obtain rfl := Option.some.inj (passed.symm.trans held)
      exact ⟨own, behind ++ [token], after, longer, last, passes, ending⟩
    · -- The token is the last leaf, so all that was read is kept.
      have all := (opened.next token incomplete).passes (by rw [added]; rfl)
      rw [added] at held all
      obtain rfl := Option.some.inj held
      refine ⟨read ++ [token], [], _, (List.append_nil _).symm, ?_, all.1, ?_⟩
      · simp [Draft.add]
      · simp [Step.onward, finish, Draft.keep, Draft.close, Draft.add]
    · rw [refused] at held
      obtain rfl := Option.some.inj held
      exact ⟨own, behind ++ [token], after, longer, last, passes, ending⟩
    · rw [discarded, same] at held
      obtain rfl := Option.some.inj held
      exact ⟨own, behind ++ [token], after, longer, last, passes, ending⟩

end Opened

/-- Between two statements nothing is held; otherwise a line is discarded from its start, or a
statement has been opened. -/
theorem opened_of_draft? {tokens : List Token} {draft : Draft}
    (held : (betweenStatements.advance tokens).draft? = some draft) :
    ∃ before read, tokens = before ++ read ∧
      betweenStatements.advance before = .betweenStatements ∧
      Opened read (betweenStatements.advance tokens) := by
  induction tokens using List.reverseRecOn generalizing draft with
  | nil => contradiction
  | append_singleton earlier token ih =>
    rw [advance_concat] at held ⊢
    cases before : (betweenStatements.advance earlier).draft? with
    | some previous =>
      obtain ⟨front, read, rfl, start, opened⟩ := ih before
      have incomplete : ((betweenStatements.advance (front ++ read)).step token).statement =
          none := by
        by_contra complete
        obtain ⟨statement, complete⟩ := Option.ne_none_iff_exists'.mp complete
        rw [(step_complete before complete).1] at held
        contradiction
      exact ⟨front, read ++ [token], List.append_assoc .., start, opened.next token incomplete⟩
    | none =>
      obtain ⟨start, identifier⟩ := step_starts before held
      refine ⟨earlier, [token], rfl, start, ?_⟩
      rw [start]
      have first : (betweenStatements.step token).reading = .afterTarget (.start token) := by
        simp [step, identifier, Step.onward]
      rw [first]
      exact .start identifier

/-- How tokens complete a statement. -/
inductive Origin (tokens : List Token) : Statement → Prop
  /-- A label is a name and a colon with nothing but space between the two. -/
  | label {before spaces after : List Token} {colon : Token} {draft : Draft}
    (whole : tokens = before ++ (draft.target :: spaces ++ colon :: after))
    (start : betweenStatements.advance before = .betweenStatements)
    (opened : Opened (draft.target :: spaces) (.afterTarget draft))
    (each : ∀ token ∈ spaces, token.kind = .space) (mark : colon.kind = .colon) :
    Origin tokens (.label draft.target colon.stop)
  /-- The line of an instruction ends with a terminator. -/
  | ended {before read after : List Token} {terminator : Token} {reading : Reading}
    {draft : Draft} (whole : tokens = before ++ (read ++ terminator :: after))
    (start : betweenStatements.advance before = .betweenStatements)
    (opened : Opened read reading) (held : reading.draft? = some draft)
    (mark : terminator.kind = .terminator) :
    Origin tokens (draft.ended
      (reading.isDiscarding || (reading.step terminator).notice.isSome) terminator.stop)
  /-- The line of an instruction ends with the source. -/
  | unended {before read : List Token} {reading : Reading} {draft : Draft}
    (whole : tokens = before ++ read)
    (start : betweenStatements.advance before = .betweenStatements)
    (opened : Opened read reading) (held : reading.draft? = some draft) :
    Origin tokens (draft.ended
      (reading.isDiscarding || reading.finish.notice.isSome) draft.reach)

/-- A statement that tokens complete is completed by one of them. -/
theorem mem_completed {reading : Reading} {tokens : List Token} {statement : Statement}
    (member : statement ∈ reading.completed tokens) :
    ∃ earlier token later, tokens = earlier ++ token :: later ∧
      ((reading.advance earlier).step token).statement = some statement := by
  induction tokens generalizing reading with
  | nil => contradiction
  | cons token others ih =>
    rcases List.mem_append.mp member with here | behind
    · exact ⟨[], token, others, rfl, Option.mem_toList.mp here⟩
    · obtain ⟨earlier, found, later, rfl, complete⟩ := ih behind
      exact ⟨token :: earlier, found, later, rfl, complete⟩

/-- Each statement of a run has an origin among its tokens. -/
theorem origin_of_mem_statements {tokens : List Token} {statement : Statement}
    (member : statement ∈ betweenStatements.statements tokens) : Origin tokens statement := by
  rw [statements_eq] at member
  rcases List.mem_append.mp member with inside | last
  · obtain ⟨earlier, token, later, rfl, complete⟩ := mem_completed inside
    obtain ⟨draft, held, _⟩ := statement_step complete
    obtain ⟨before, read, rfl, start, opened⟩ := opened_of_draft? held
    rcases (step_complete held complete).2 with ⟨target, mark, _, rfl⟩ | ⟨mark, rfl⟩
    · obtain ⟨spaces, rfl, each⟩ := opened.spaces target
      rw [target] at opened
      exact .label (List.append_assoc ..) start opened each mark
    · exact .ended (List.append_assoc ..) start opened held mark
  · obtain ⟨draft, held, _⟩ := statement_finish (Option.mem_toList.mp last)
    obtain ⟨before, read, rfl, start, opened⟩ := opened_of_draft? held
    rw [finish_complete held, Option.toList_some, List.mem_singleton] at last
    rw [last]
    exact .unended rfl start opened held

end Reading

end Assembly8085
