import Assembly8085.Proofs.Acceptance

/-!
# Derivations from readings

Each reading says what is still missing of a derivation. A token that is in order is put in front
of what the reading behind it misses, so from the end of the source backwards a derivation comes
about of all that was read.
-/
namespace Assembly8085.Reading

open Grammar (row)

/-- Tokens are the layout and the statements up to the end of the source. -/
def RemainsSource (endOfFile : Grammar.EndOfFile) (ahead : List Token) : Prop :=
  ∃ (leading : List Grammar.Trivia) (lines : List (Grammar.Statement × List Grammar.Trivia)),
    row leading ++ Grammar.tokensOf lines endOfFile = ahead ∧ Grammar.LooksAhead endOfFile lines

/-- Tokens are the end of a line, and what comes after it. -/
def RemainsEnd (endOfFile : Grammar.EndOfFile) (ahead : List Token) : Prop :=
  ∃ (terminator : Option Grammar.Terminator) (rest : List Token),
    row terminator.toList ++ rest = ahead ∧ RemainsSource endOfFile rest ∧
      (terminator = none → rest.head?.map (·.kind) = some .endOfFile)

/-- Tokens are a comment, if there is one, and the end of its line. -/
def RemainsComment (endOfFile : Grammar.EndOfFile) (ahead : List Token) : Prop :=
  ∃ (comment : Option Grammar.Comment) (rest : List Token),
    row comment.toList ++ rest = ahead ∧ RemainsEnd endOfFile rest

/-- Tokens are space and, behind it, what fulfils a condition. -/
def Spaced (behind : List Token → Prop) (ahead : List Token) : Prop :=
  ∃ (spaces : List Grammar.Space) (rest : List Token), row spaces ++ rest = ahead ∧ behind rest

/-- Tokens are the space behind an operand, the operands behind that, and what ends the line. -/
def RemainsOperands (endOfFile : Grammar.EndOfFile) : List Token → Prop :=
  Spaced fun ahead => ∃ (others : List Grammar.NextOperand) (rest : List Token),
    others.flatMap (·.tokens) ++ rest = ahead ∧ RemainsComment endOfFile rest

/-- Tokens are the space behind a comma, an operand, and what comes after it. -/
def RemainsOperand (endOfFile : Grammar.EndOfFile) : List Token → Prop :=
  Spaced fun ahead => ∃ (leaf : Grammar.Leaf) (rest : List Token),
    leaf.val :: rest = ahead ∧ RemainsOperands endOfFile rest

/-- Tokens are the space behind a name and what makes it a label or an instruction. -/
def RemainsStatement (endOfFile : Grammar.EndOfFile) : List Token → Prop :=
  Spaced fun ahead =>
    (∃ (colon : Grammar.Colon) (rest : List Token), colon.val :: rest = ahead ∧
        RemainsSource endOfFile rest) ∨
      ∃ operands rest, Grammar.operandTokens operands ++ rest = ahead ∧
        RemainsComment endOfFile rest

/-- What a reading still misses of a derivation. -/
def Remains (endOfFile : Grammar.EndOfFile) : Reading → List Token → Prop
  | .betweenStatements => RemainsSource endOfFile
  | .afterTarget _ => RemainsStatement endOfFile
  | .afterOperand _ => RemainsOperands endOfFile
  | .afterDelimiter _ => RemainsOperand endOfFile
  | .afterComment _ => RemainsEnd endOfFile
  | .discarding _ => fun _ => True

variable {endOfFile : Grammar.EndOfFile} {ahead : List Token} {token : Token}

/-- Space may be in front of space. -/
theorem Spaced.cons {behind : List Token → Prop} (remains : Spaced behind ahead)
    (space : token.kind = .space) : Spaced behind (token :: ahead) := by
  obtain ⟨spaces, rest, rfl, fulfilled⟩ := remains
  exact ⟨⟨token, beq_iff_eq.mpr space⟩ :: spaces, rest, rfl, fulfilled⟩

/-- There may be no space. -/
theorem Spaced.of_behind {behind : List Token → Prop} (fulfilled : behind ahead) :
    Spaced behind ahead :=
  ⟨[], ahead, rfl, fulfilled⟩

/-- A name in front of what makes it a statement starts one. -/
theorem RemainsStatement.name (remains : RemainsStatement endOfFile ahead)
    (identifier : token.kind = .identifier) : RemainsSource endOfFile (token :: ahead) := by
  let name : Grammar.Name := ⟨token, beq_iff_eq.mpr identifier⟩
  obtain ⟨spaces, rest, rfl, ⟨colon, behind, rfl, leading, lines, rfl, looksAhead⟩ |
    ⟨operands, behind, rfl, comment, ends, rfl, terminator, last, rfl,
      ⟨leading, lines, rfl, looksAhead⟩, missing⟩⟩ := remains
  · refine ⟨[], (.label name spaces colon, leading) :: lines, ?_, fun _ => ?_, looksAhead⟩
    · simp [row, Grammar.tokensOf_cons, Grammar.Statement.tokens, name]
    · contradiction
  · refine ⟨[], (.instruction name spaces operands comment terminator, leading) :: lines, ?_,
      fun isOpen => ?_, looksAhead⟩
    · simp [row, Grammar.tokensOf_cons, Grammar.Statement.tokens, name]
    · exact missing (by simpa [Grammar.Statement.isOpen] using isOpen)

/-- Layout may be in front of statements. -/
theorem RemainsSource.trivia (remains : RemainsSource endOfFile ahead)
    (layout : token.kind.isTrivia = true) : RemainsSource endOfFile (token :: ahead) := by
  obtain ⟨leading, lines, rfl, looksAhead⟩ := remains
  exact ⟨⟨token, layout⟩ :: leading, lines, rfl, looksAhead⟩

/-- A terminator ends a line. -/
theorem RemainsSource.terminator (remains : RemainsSource endOfFile ahead)
    (terminator : token.kind = .terminator) : RemainsEnd endOfFile (token :: ahead) :=
  ⟨some ⟨token, beq_iff_eq.mpr terminator⟩, ahead, rfl, remains, fun missing => by contradiction⟩

/-- A colon makes a name a label. -/
theorem RemainsSource.colon (remains : RemainsSource endOfFile ahead)
    (colon : token.kind = .colon) : RemainsStatement endOfFile (token :: ahead) :=
  .of_behind (.inl ⟨⟨token, beq_iff_eq.mpr colon⟩, ahead, rfl, remains⟩)

/-- A line may end behind a comment. -/
theorem RemainsEnd.comment (remains : RemainsEnd endOfFile ahead)
    (comment : token.kind = .comment) : RemainsComment endOfFile (token :: ahead) :=
  ⟨some ⟨token, beq_iff_eq.mpr comment⟩, ahead, rfl, remains⟩

/-- A line may end without a comment. -/
theorem RemainsEnd.noComment (remains : RemainsEnd endOfFile ahead) :
    RemainsComment endOfFile ahead :=
  ⟨none, ahead, rfl, remains⟩

/-- There may be no more operands. -/
theorem RemainsComment.operands (remains : RemainsComment endOfFile ahead) :
    RemainsOperands endOfFile ahead :=
  .of_behind ⟨[], ahead, rfl, remains⟩

/-- There may be no operands at all. -/
theorem RemainsComment.statement (remains : RemainsComment endOfFile ahead) :
    RemainsStatement endOfFile ahead :=
  .of_behind (.inr ⟨none, ahead, rfl, remains⟩)

/-- A name or a number behind a name is its first operand. -/
theorem RemainsOperands.first (remains : RemainsOperands endOfFile ahead)
    (literal : token.kind.isLiteral = true) : RemainsStatement endOfFile (token :: ahead) := by
  obtain ⟨spaces, _, rfl, others, rest, rfl, behind⟩ := remains
  let operand : Grammar.Operand := ⟨⟨token, literal⟩, spaces⟩
  refine .of_behind (.inr ⟨some (operand, others), rest, ?_, behind⟩)
  simp [Grammar.operandTokens, Grammar.Operand.tokens, operand]

/-- A name or a number behind a comma is an operand. -/
theorem RemainsOperands.next (remains : RemainsOperands endOfFile ahead)
    (literal : token.kind.isLiteral = true) : RemainsOperand endOfFile (token :: ahead) :=
  .of_behind ⟨⟨token, literal⟩, ahead, rfl, remains⟩

/-- A comma in front of an operand makes it one more. -/
theorem RemainsOperand.delimiter (remains : RemainsOperand endOfFile ahead)
    (delimiter : token.kind = .delimiter) : RemainsOperands endOfFile (token :: ahead) := by
  obtain ⟨spaces, _, rfl, leaf, _, rfl, more, _, rfl, others, rest, rfl, ends⟩ := remains
  let next : Grammar.NextOperand := ⟨⟨token, beq_iff_eq.mpr delimiter⟩, spaces, leaf, more⟩
  refine .of_behind ⟨next :: others, rest, ?_, ends⟩
  simp [row, Grammar.NextOperand.tokens, Grammar.Operand.tokens, next]

/-- A token that is in order is put in front of what the reading behind it misses. -/
theorem remains_step {reading : Reading} (silent : (reading.step token).notice = none)
    (remains : Remains endOfFile (reading.step token).reading ahead) :
    Remains endOfFile reading (token :: ahead) := by
  cases reading with
  | betweenStatements =>
    cases kind : token.kind with
    | identifier =>
      simp only [step, kind] at remains
      exact RemainsStatement.name remains kind
    | space | comment | terminator =>
      simp only [step, kind] at remains
      exact RemainsSource.trivia remains (by rw [kind]; rfl)
    | _ => simp [step, kind, TokenKind.isTrivia, Step.refuse] at silent
  | afterTarget draft =>
    cases kind : token.kind with
    | colon =>
      simp only [step, kind] at remains
      exact RemainsSource.colon remains kind
    | identifier | integer =>
      simp only [step, kind] at remains
      exact RemainsOperands.first remains (by rw [kind]; rfl)
    | space =>
      simp only [step, kind] at remains
      exact Spaced.cons remains kind
    | comment =>
      simp only [step, kind] at remains
      exact (RemainsEnd.comment remains kind).statement
    | terminator =>
      simp only [step, kind] at remains
      exact (RemainsSource.terminator remains kind).noComment.statement
    | _ => simp [step, kind, Step.refuse] at silent
  | afterOperand draft =>
    cases kind : token.kind with
    | delimiter =>
      simp only [step, kind] at remains
      exact RemainsOperand.delimiter remains kind
    | space =>
      simp only [step, kind] at remains
      exact Spaced.cons remains kind
    | comment =>
      simp only [step, kind] at remains
      exact (RemainsEnd.comment remains kind).operands
    | terminator =>
      simp only [step, kind] at remains
      exact (RemainsSource.terminator remains kind).noComment.operands
    | _ => simp [step, kind, Step.refuse] at silent
  | afterDelimiter draft =>
    cases kind : token.kind with
    | identifier | integer =>
      simp only [step, kind] at remains
      exact RemainsOperands.next remains (by rw [kind]; rfl)
    | space =>
      simp only [step, kind] at remains
      exact Spaced.cons remains kind
    | _ => simp [step, kind, Step.refuse] at silent
  | afterComment draft =>
    cases kind : token.kind with
    | terminator =>
      simp only [step, kind] at remains
      exact RemainsSource.terminator remains kind
    | _ => simp [step, kind, Step.refuse] at silent
  | discarding draft => trivial

/-- Where the source may end nothing is missing but its end. -/
theorem remains_finish {reading : Reading} (silent : reading.finish.notice = none) :
    Remains endOfFile reading [endOfFile.val] := by
  have source : RemainsSource endOfFile [endOfFile.val] := ⟨[], [], rfl, trivial⟩
  have ending : RemainsEnd endOfFile [endOfFile.val] :=
    ⟨none, [endOfFile.val], rfl, source, fun _ => congrArg some (eq_of_beq endOfFile.property)⟩
  cases reading with
  | betweenStatements => exact source
  | afterTarget draft => exact ending.noComment.statement
  | afterOperand draft => exact ending.noComment.operands
  | afterDelimiter draft => contradiction
  | afterComment draft => exact ending
  | discarding draft => trivial

/-- What an accepting reading has ahead is what it misses. -/
theorem remains_of_silent {reading : Reading} {tokens : List Token}
    (silent : reading.notices tokens = [])
    (ends : (reading.advance tokens).finish.notice = none) :
    Remains endOfFile reading (tokens ++ [endOfFile.val]) := by
  induction tokens generalizing reading with
  | nil => exact remains_finish ends
  | cons token others ih =>
    simp only [notices, List.append_eq_nil_iff, Option.toList_eq_nil_iff] at silent
    exact remains_step silent.1 (ih silent.2 ends)

/-- Tokens are accepted exactly if they and the end of the source have a derivation. -/
theorem silent_iff_derives (endOfFile : Grammar.EndOfFile) (tokens : List Token) :
    (betweenStatements.notices tokens = [] ∧
        (betweenStatements.advance tokens).finish.notice = none) ↔
      ∃ source : Grammar.Source, source.Derives (tokens ++ [endOfFile.val]) := by
  constructor
  · rintro ⟨silent, ends⟩
    obtain ⟨leading, lines, same, looksAhead⟩ : RemainsSource endOfFile _ :=
      remains_of_silent silent ends
    exact ⟨⟨leading, lines, endOfFile⟩, same, looksAhead⟩
  · rintro ⟨source, derives⟩
    have accepted := accepts_of_derives derives
    exact ⟨accepted.notices, accepted.ending⟩

end Assembly8085.Reading
