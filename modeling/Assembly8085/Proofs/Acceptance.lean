import Assembly8085.Proofs.Reading
import Assembly8085.Proofs.Unambiguity

/-!
# What a reading accepts

A reading without a notice accepts the tokens of a derivation, and only those. One way it is run
over a derivation part by part; the other way each reading says what is still missing of the
derivation, and tokens that it takes are put in front of that.
-/
namespace Assembly8085

open Grammar (row TokenOf)

/-- The target and the operands of an instruction that has been read in part. -/
def Draft.Holds (draft : Draft) (target : Token) (operands : List Token) : Prop :=
  draft.target = target ∧ draft.operands = operands

namespace Reading

/-- There is nothing to be said about tokens and the end of the source behind them, and the
statements have some terms. -/
structure Accepts (reading : Reading) (tokens : List Token) (terms : List Term) : Prop where
  /-- No token is out of order. -/
  notices : reading.notices tokens = []
  /-- The source does not end too early. -/
  ending : (reading.advance tokens).finish.notice = none
  /-- The terms of the statements. -/
  terms : (reading.statements tokens).map (·.build Term.node) = terms

/-- Tokens that take a reading to one that accepts others come before the others. -/
theorem Passes.accepts {reading after : Reading} {tokens others : List Token}
    {early : List Statement} {late : List Term} (passes : reading.Passes tokens after early)
    (accepts : after.Accepts others late) :
    reading.Accepts (tokens ++ others) (early.map (·.build Term.node) ++ late) where
  notices := by rw [notices_append, passes.advance, passes.notices, accepts.notices]; rfl
  ending := by rw [advance_append, passes.advance, accepts.ending]
  terms := by rw [passes.statements, List.map_append, accepts.terms]

section Complete

variable {target : Token} {operands : List Token} {draft : Draft}

/-- Space is passed over wherever a reading passes over one. -/
theorem passes_spaces (mark : Draft → Reading)
    (skips : ∀ draft token, token.kind = .space →
      (mark draft).step token = .onward (mark (draft.pass token)))
    (holds : draft.Holds target operands) (spaces : List Grammar.Space) :
    ∃ after, after.Holds target operands ∧ (mark draft).Passes (row spaces) (mark after) [] := by
  induction spaces generalizing draft with
  | nil => exact ⟨draft, holds, passes_nil _⟩
  | cons space others ih =>
    have read := skips draft space.val (eq_of_beq space.property)
    have held : (draft.pass space.val).Holds target operands := holds
    obtain ⟨after, heldAfter, passes⟩ := ih held
    exact ⟨after, heldAfter, Passes.cons space.val read passes⟩

/-- A name and the space behind it start a statement. -/
theorem passes_name (name : Grammar.Name) (spaces : List Grammar.Space) :
    ∃ after, after.Holds name.val [] ∧
      betweenStatements.Passes (name.val :: row spaces) (.afterTarget after) [] := by
  have started : betweenStatements.step name.val = .onward (.afterTarget (.start name.val)) := by
    simp [step, eq_of_beq name.property]
  have held : (Draft.start name.val).Holds name.val [] := ⟨rfl, rfl⟩
  obtain ⟨after, heldAfter, passes⟩ := passes_spaces .afterTarget
    (fun draft token space => by simp [step, space]) held spaces
  exact ⟨after, heldAfter, Passes.cons name.val started passes⟩

/-- An operand is taken wherever a reading takes one. -/
theorem passes_operand (mark : Draft → Reading)
    (takes : ∀ draft token, token.kind.isLiteral = true →
      (mark draft).step token = .onward (.afterOperand (draft.add token)))
    (holds : draft.Holds target operands) (operand : Grammar.Operand) :
    ∃ after, after.Holds target (operands ++ [operand.leaf.val]) ∧
      (mark draft).Passes operand.tokens (.afterOperand after) [] := by
  have read := takes draft operand.leaf.val operand.leaf.property
  have held : (draft.add operand.leaf.val).Holds target (operands ++ [operand.leaf.val]) :=
    ⟨holds.1, by rw [Draft.add, holds.2]⟩
  obtain ⟨after, heldAfter, passes⟩ := passes_spaces .afterOperand
    (fun draft token space => by simp [step, space]) held operand.spaces
  exact ⟨after, heldAfter, Passes.cons operand.leaf.val read passes⟩

/-- A literal is an operand behind a target and behind a comma. -/
theorem step_of_isLiteral (draft : Draft) (token : Token) (literal : token.kind.isLiteral = true) :
    (afterTarget draft).step token = .onward (.afterOperand (draft.add token)) ∧
      (afterDelimiter draft).step token = .onward (.afterOperand (draft.add token)) := by
  cases kind : token.kind <;> simp_all [TokenKind.isLiteral, step]

/-- The operands behind the first one are taken one by one. -/
theorem passes_nextOperands (holds : draft.Holds target operands)
    (others : List Grammar.NextOperand) :
    ∃ after, after.Holds target (operands ++ others.map (·.operand.leaf.val)) ∧
      (afterOperand draft).Passes (others.flatMap (·.tokens)) (.afterOperand after) [] := by
  induction others generalizing draft operands with
  | nil => exact ⟨draft, by rwa [List.map_nil, List.append_nil], passes_nil _⟩
  | cons next more ih =>
    have separated : (afterOperand draft).step next.delimiter.val =
        .onward (.afterDelimiter (draft.pass next.delimiter.val)) := by
      simp [step, eq_of_beq next.delimiter.property]
    have held : (draft.pass next.delimiter.val).Holds target operands := holds
    obtain ⟨spaced, heldSpaced, spaces⟩ := passes_spaces .afterDelimiter
      (fun draft token space => by simp [step, space]) held next.spaces
    obtain ⟨taken, heldTaken, operand⟩ := passes_operand .afterDelimiter
      (fun draft token literal => (step_of_isLiteral draft token literal).2) heldSpaced
      next.operand
    obtain ⟨after, heldAfter, behind⟩ := ih heldTaken
    refine ⟨after, by simpa using heldAfter, ?_⟩
    have line := Passes.cons next.delimiter.val separated ((spaces.append operand).append behind)
    simpa [Grammar.NextOperand.tokens] using line

/-- The operands of an instruction are taken if it has any. -/
theorem passes_operandTokens (holds : draft.Holds target [])
    (optional : Option (Grammar.Operand × List Grammar.NextOperand)) :
    ∃ reading after, (reading = .afterTarget after ∨ reading = .afterOperand after) ∧
      after.Holds target (Grammar.operandLeaves optional) ∧
      (afterTarget draft).Passes (Grammar.operandTokens optional) reading [] := by
  cases optional with
  | none => exact ⟨_, draft, .inl rfl, holds, passes_nil _⟩
  | some pair =>
    obtain ⟨first, others⟩ := pair
    obtain ⟨taken, held, operand⟩ := passes_operand .afterTarget
      (fun draft token literal => (step_of_isLiteral draft token literal).1) holds first
    obtain ⟨after, heldAfter, behind⟩ := passes_nextOperands held others
    exact ⟨_, after, .inr rfl, heldAfter, operand.append behind⟩

/-- The line of an instruction may end. -/
def MayEnd (reading : Reading) (draft : Draft) : Prop :=
  reading = .afterTarget draft ∨ reading = .afterOperand draft ∨ reading = .afterComment draft

/-- A terminator completes an instruction whose line may end. -/
theorem MayEnd.step {reading : Reading} (mayEnd : reading.MayEnd draft) {token : Token}
    (terminator : token.kind = .terminator) :
    reading.step token = .complete (draft.close token.stop) := by
  rcases mayEnd with rfl | rfl | rfl <;> simp [Reading.step, terminator]

/-- The end of the source completes an instruction whose line may end. -/
theorem MayEnd.finish {reading : Reading} (mayEnd : reading.MayEnd draft) :
    reading.finish = ⟨some (draft.close draft.reach), none, false⟩ := by
  rcases mayEnd with rfl | rfl | rfl <;> rfl

/-- A comment is passed over behind a target and behind an operand. -/
theorem passes_comment {reading : Reading} (holds : draft.Holds target operands)
    (pending : reading = .afterTarget draft ∨ reading = .afterOperand draft)
    (comment : Option Grammar.Comment) :
    ∃ behind after, MayEnd behind after ∧ after.Holds target operands ∧
      reading.Passes (row comment.toList) behind [] := by
  cases comment with
  | none => exact ⟨reading, draft, pending.imp_right .inl, holds, passes_nil _⟩
  | some token =>
    have read : reading.step token.val = .onward (.afterComment (draft.pass token.val)) := by
      rcases pending with rfl | rfl <;> simp [step, eq_of_beq token.property]
    exact ⟨_, draft.pass token.val, .inr (.inr rfl), holds,
      Passes.cons token.val read (passes_nil _)⟩

/-- All but the terminator of an instruction is read, and then its line may end. -/
theorem passes_instruction (name : Grammar.Name) (spaces : List Grammar.Space)
    (optional : Option (Grammar.Operand × List Grammar.NextOperand))
    (comment : Option Grammar.Comment) :
    ∃ reading after, MayEnd reading after ∧
      after.Holds name.val (Grammar.operandLeaves optional) ∧
      betweenStatements.Passes
        (name.val :: (row spaces ++ Grammar.operandTokens optional ++ row comment.toList))
        reading [] := by
  obtain ⟨named, heldNamed, namePass⟩ := passes_name name spaces
  obtain ⟨reading, taken, pending, heldTaken, operandsPass⟩ :=
    passes_operandTokens heldNamed optional
  obtain ⟨behind, after, mayEnd, heldAfter, commentPass⟩ :=
    passes_comment heldTaken pending comment
  exact ⟨behind, after, mayEnd, heldAfter,
    (namePass.append operandsPass).append commentPass⟩

/-- An instruction has the term of what its draft holds. -/
theorem build_close {optional : Option (Grammar.Operand × List Grammar.NextOperand)}
    {name : Grammar.Name} (holds : draft.Holds name.val (Grammar.operandLeaves optional))
    (spaces : List Grammar.Space) (comment : Option Grammar.Comment)
    (terminator : Option Grammar.Terminator) (stop : Nat) :
    (draft.close stop).build Term.node =
      (Grammar.Statement.instruction name spaces optional comment terminator).term := by
  simp only [Draft.close, Statement.build, Grammar.Statement.term, holds.1, holds.2]

/-- A statement with its own end is completed. -/
theorem passes_statement {statement : Grammar.Statement} (closed : statement.isOpen = false) :
    ∃ again : Statement, again.build Term.node = statement.term ∧
      betweenStatements.Passes statement.tokens .betweenStatements [again] := by
  cases statement with
  | label name spaces colon =>
    obtain ⟨named, held, namePass⟩ := passes_name name spaces
    have ended : (afterTarget named).step colon.val =
        .complete (.label named.target colon.val.stop) := by
      simp [step, eq_of_beq colon.property]
    refine ⟨.label named.target colon.val.stop, ?_, ?_⟩
    · simp only [Statement.build, Grammar.Statement.term, held.1]
    · exact namePass.append (Passes.cons colon.val ended (passes_nil _))
  | instruction name spaces optional comment terminator =>
    obtain ⟨reading, after, mayEnd, held, passes⟩ :=
      passes_instruction name spaces optional comment
    obtain ⟨token, rfl⟩ : ∃ token, terminator = some token := by
      cases terminator with
      | none => contradiction
      | some token => exact ⟨token, rfl⟩
    exact ⟨_, build_close held spaces comment (some token) _,
      passes.append (Passes.cons token.val (mayEnd.step (eq_of_beq token.property))
        (passes_nil _))⟩

/-- An instruction without a terminator is accepted at the end of the source. -/
theorem accepts_statement {statement : Grammar.Statement} (isOpen : statement.isOpen = true) :
    betweenStatements.Accepts statement.tokens [statement.term] := by
  cases statement with
  | label name spaces colon => contradiction
  | instruction name spaces optional comment terminator =>
    obtain ⟨reading, after, mayEnd, held, passes⟩ :=
      passes_instruction name spaces optional comment
    obtain rfl : terminator = none := by
      cases terminator with
      | none => rfl
      | some token => contradiction
    have ended : reading.Accepts []
        [(Grammar.Statement.instruction name spaces optional comment none).term] := by
      refine ⟨rfl, ?_, ?_⟩
      · rw [advance_nil, mayEnd.finish]
      · rw [statements, mayEnd.finish]
        exact congrArg (fun term => [term])
          (build_close held spaces comment none after.reach)
    simpa [Grammar.Statement.tokens, row] using passes.accepts ended

/-- Layout is passed over between statements. -/
theorem passes_trivia (trivia : List Grammar.Trivia) :
    betweenStatements.Passes (row trivia) .betweenStatements [] := by
  induction trivia with
  | nil => exact passes_nil _
  | cons token others ih =>
    have read : betweenStatements.step token.val = .onward .betweenStatements := by
      have layout := token.property
      cases kind : token.val.kind <;> simp_all [TokenKind.isTrivia, step]
    exact Passes.cons token.val read ih

end Complete

/-- An instruction that looks ahead to the end of the source is the last one, and no layout is
behind it. -/
theorem eq_nil_of_looksAhead {trivia : List Grammar.Trivia}
    {others : List (Grammar.Statement × List Grammar.Trivia)} {endOfFile : Grammar.EndOfFile}
    (looksAhead : (row trivia ++ Grammar.tokensOf others endOfFile).head?.map (·.kind) =
      some .endOfFile) : trivia = [] ∧ others = [] := by
  have starts := Grammar.startsWith_of_head? looksAhead
  cases trivia with
  | cons token more =>
    exact absurd rfl (Grammar.cons_ne_of_startsWith (by decide) starts token _)
  | nil =>
    cases others with
    | nil => exact ⟨rfl, rfl⟩
    | cons line more =>
      obtain ⟨name, rest, same⟩ := Grammar.exists_tokens_eq_cons line.1
      rw [Grammar.tokensOf_cons, same] at starts
      exact absurd rfl (Grammar.cons_ne_of_startsWith (by decide) starts name _)

/-- Statements are accepted if only the last one looks ahead to the end of the source. -/
theorem accepts_lines {lines : List (Grammar.Statement × List Grammar.Trivia)}
    {endOfFile : Grammar.EndOfFile} (looksAhead : Grammar.LooksAhead endOfFile lines) :
    betweenStatements.Accepts
      (lines.flatMap fun (statement, trivia) => statement.tokens ++ row trivia)
      (lines.map (·.1.term)) := by
  induction lines with
  | nil => exact ⟨rfl, rfl, rfl⟩
  | cons line others ih =>
    obtain ⟨statement, trivia⟩ := line
    cases isOpen : statement.isOpen with
    | false =>
      obtain ⟨again, same, passes⟩ := passes_statement isOpen
      have accepted := (passes.append (passes_trivia trivia)).accepts (ih looksAhead.2)
      simpa [same] using accepted
    | true =>
      obtain ⟨rfl, rfl⟩ := eq_nil_of_looksAhead (looksAhead.1 isOpen)
      simpa [row] using accepts_statement isOpen

/-- The tokens of a derivation are accepted, and the statements are those of the derivation. -/
theorem accepts_of_derives {source : Grammar.Source} {tokens : List Token} {endOfFile : Token}
    (derives : source.Derives (tokens ++ [endOfFile])) :
    betweenStatements.Accepts tokens (source.lines.map (·.1.term)) := by
  have whole := derives.tokens
  rw [Grammar.Source.tokens, Grammar.tokensOf, ← List.append_assoc] at whole
  rw [← (List.append_inj' whole rfl).1]
  exact (passes_trivia source.leading).accepts (accepts_lines derives.looksAhead)

end Reading

end Assembly8085
