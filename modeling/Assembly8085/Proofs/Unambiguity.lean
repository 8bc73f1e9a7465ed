import Assembly8085.Proofs.Grammar

/-!
# Derivations are unique

A run of tokens of one family of kinds always ends in front of a kind that cannot belong to it. So
each part of a derivation is determined by the tokens, and the whole is as well.
-/
namespace Assembly8085.Grammar

/-- If there is a first token, its kind is one of some kinds. -/
def StartsWith (kinds : List TokenKind) (tokens : List Token) : Prop :=
  ∀ token ∈ tokens.head?, token.kind ∈ kinds

/-- The kinds that may follow the operands of an instruction. -/
def behindOperands : List TokenKind := [.comment, .terminator, .endOfFile]

/-- The kinds that may follow an operand and its space. -/
def behindOperand : List TokenKind := .delimiter :: behindOperands

/-- The kinds that may follow a target and its space. -/
def behindTarget : List TokenKind := [.identifier, .integer] ++ behindOperands

variable {family : TokenKind → Bool} {kinds : List TokenKind} {rest other : List Token}

theorem startsWith_cons {token : Token} {others : List Token} :
    StartsWith kinds (token :: others) ↔ token.kind ∈ kinds := by
  simp [StartsWith]

theorem startsWith_token {kind : TokenKind} (token : TokenOf (· == kind)) (rest : List Token)
    (among : kind ∈ kinds) : StartsWith kinds (token.val :: rest) := by
  rw [startsWith_cons, eq_of_beq token.property]
  exact among

theorem StartsWith.mono {more : List TokenKind} (starts : StartsWith kinds rest)
    (among : ∀ kind ∈ kinds, kind ∈ more) : StartsWith more rest :=
  fun token head => among token.kind (starts token head)

/-- Tokens start with a kind of a run if there is one, and with one of what is behind it else. -/
theorem startsWith_row (run : List (TokenOf family))
    (own : ∀ kind, family kind = true → kind ∈ kinds) (behind : StartsWith kinds rest) :
    StartsWith kinds (row run ++ rest) := by
  cases run with
  | nil => exact behind
  | cons token others => exact startsWith_cons.mpr (own token.val.kind token.property)

/-- What starts with a token of a family does not start with one of other kinds. -/
theorem cons_ne_of_startsWith (outside : ∀ kind ∈ kinds, family kind = false)
    (stops : StartsWith kinds rest) (token : TokenOf family) (more : List Token) :
    token.val :: more ≠ rest := by
  rintro rfl
  have inside := outside token.val.kind (startsWith_cons.mp stops)
  rw [token.property] at inside
  contradiction

/-- A run of a family of kinds is determined by the tokens if other kinds follow it. -/
theorem row_append_inj {first second : List (TokenOf family)}
    (outside : ∀ kind ∈ kinds, family kind = false) (stops : StartsWith kinds rest)
    (stopsToo : StartsWith kinds other) (same : row first ++ rest = row second ++ other) :
    first = second ∧ rest = other := by
  induction first generalizing second with
  | nil =>
    cases second with
    | nil => exact ⟨rfl, same⟩
    | cons token others => exact absurd same.symm (cons_ne_of_startsWith outside stops token _)
  | cons token others ih =>
    cases second with
    | nil => exact absurd same (cons_ne_of_startsWith outside stopsToo token _)
    | cons _ more =>
      obtain ⟨head, tail⟩ := List.cons.inj same
      obtain ⟨rfl, behind⟩ := ih tail
      exact ⟨by rw [Subtype.ext head], behind⟩

/-- A token that may be missing is determined by the tokens if other kinds follow it. -/
theorem optional_append_inj {first second : Option (TokenOf family)}
    (outside : ∀ kind ∈ kinds, family kind = false) (stops : StartsWith kinds rest)
    (stopsToo : StartsWith kinds other)
    (same : row first.toList ++ rest = row second.toList ++ other) :
    first = second ∧ rest = other := by
  obtain ⟨items, behind⟩ := row_append_inj outside stops stopsToo same
  exact ⟨by simpa using congrArg List.head? items, behind⟩

/-- An operand is determined by the tokens. -/
theorem operand_append_inj {first second : Operand} (stops : StartsWith behindOperand rest)
    (stopsToo : StartsWith behindOperand other)
    (same : first.tokens ++ rest = second.tokens ++ other) : first = second ∧ rest = other := by
  obtain ⟨leaf, spaces⟩ := first
  obtain ⟨_, _⟩ := second
  obtain ⟨head, tail⟩ := List.cons.inj same
  obtain ⟨rfl, behind⟩ := row_append_inj (by decide) stops stopsToo tail
  obtain rfl := Subtype.ext head
  exact ⟨rfl, behind⟩

/-- An operand starts with a name or a number. -/
theorem startsWith_operand (operand : Operand) (rest : List Token) :
    StartsWith [.identifier, .integer] (operand.tokens ++ rest) := by
  have each : ∀ kind : TokenKind, kind.isLiteral = true → kind ∈ [.identifier, .integer] := by
    intro kind literal
    cases kind <;> first | contradiction | decide
  exact startsWith_cons.mpr (each _ operand.leaf.property)

/-- An operand behind another one is determined by the tokens. -/
theorem nextOperand_append_inj {first second : NextOperand}
    (stops : StartsWith behindOperand rest) (stopsToo : StartsWith behindOperand other)
    (same : first.tokens ++ rest = second.tokens ++ other) : first = second ∧ rest = other := by
  obtain ⟨delimiter, spaces, operand⟩ := first
  obtain ⟨_, _, second⟩ := second
  simp only [NextOperand.tokens, List.cons_append, List.append_assoc] at same
  obtain ⟨head, tail⟩ := List.cons.inj same
  obtain ⟨rfl, later⟩ := row_append_inj (by decide) (startsWith_operand operand rest)
    (startsWith_operand second other) tail
  obtain ⟨rfl, behind⟩ := operand_append_inj stops stopsToo later
  obtain rfl := Subtype.ext head
  exact ⟨rfl, behind⟩

/-- Operands behind another one start with a comma if there are any. -/
theorem startsWith_nextOperands (operands : List NextOperand)
    (stops : StartsWith behindOperands rest) :
    StartsWith behindOperand (operands.flatMap (·.tokens) ++ rest) := by
  cases operands with
  | nil => exact stops.mono (by decide)
  | cons next others => exact startsWith_token next.delimiter _ (by decide)

/-- The operands behind the first one are determined by the tokens. -/
theorem nextOperands_append_inj {first second : List NextOperand}
    (stops : StartsWith behindOperands rest) (stopsToo : StartsWith behindOperands other)
    (same : first.flatMap (·.tokens) ++ rest = second.flatMap (·.tokens) ++ other) :
    first = second ∧ rest = other := by
  induction first generalizing second with
  | nil =>
    cases second with
    | nil => exact ⟨rfl, same⟩
    | cons next others =>
      exact absurd same.symm (cons_ne_of_startsWith (by decide) stops next.delimiter _)
  | cons next others ih =>
    cases second with
    | nil => exact absurd same (cons_ne_of_startsWith (by decide) stopsToo next.delimiter _)
    | cons otherNext more =>
      simp only [List.flatMap_cons, List.append_assoc] at same
      obtain ⟨rfl, later⟩ := nextOperand_append_inj (startsWith_nextOperands others stops)
        (startsWith_nextOperands more stopsToo) same
      obtain ⟨rfl, behind⟩ := ih later
      exact ⟨rfl, behind⟩

/-- Operands start with a name or a number if there are any. -/
theorem startsWith_operandTokens (operands : Option (Operand × List NextOperand))
    (stops : StartsWith behindOperands rest) :
    StartsWith behindTarget (operandTokens operands ++ rest) := by
  cases operands with
  | none => exact stops.mono (by decide)
  | some pair =>
    have starts := startsWith_operand pair.1 (pair.2.flatMap (·.tokens) ++ rest)
    rw [← List.append_assoc] at starts
    exact starts.mono (by decide)

/-- The operands of an instruction are determined by the tokens. -/
theorem operandTokens_append_inj {first second : Option (Operand × List NextOperand)}
    (stops : StartsWith behindOperands rest) (stopsToo : StartsWith behindOperands other)
    (same : operandTokens first ++ rest = operandTokens second ++ other) :
    first = second ∧ rest = other := by
  cases first with
  | none =>
    cases second with
    | none => exact ⟨rfl, same⟩
    | some pair =>
      exact absurd same.symm (cons_ne_of_startsWith (by decide) stops pair.1.leaf _)
  | some pair =>
    cases second with
    | none => exact absurd same (cons_ne_of_startsWith (by decide) stopsToo pair.1.leaf _)
    | some otherPair =>
      obtain ⟨operand, others⟩ := pair
      obtain ⟨otherOperand, more⟩ := otherPair
      simp only [operandTokens, List.append_assoc] at same
      obtain ⟨rfl, later⟩ := operand_append_inj (startsWith_nextOperands others stops)
        (startsWith_nextOperands more stopsToo) same
      obtain ⟨rfl, behind⟩ := nextOperands_append_inj stops stopsToo later
      exact ⟨rfl, behind⟩

/-- Where a terminator is missing the end of the source follows. -/
def EndsLine (terminator : Option Terminator) (rest : List Token) : Prop :=
  terminator = none → StartsWith [.endOfFile] rest

/-- The end of a line starts with a terminator or is that of the source. -/
theorem startsWith_terminator {terminator : Option Terminator}
    (ends : EndsLine terminator rest) :
    StartsWith [.terminator, .endOfFile] (row terminator.toList ++ rest) := by
  cases terminator with
  | none => exact (ends rfl).mono (by decide)
  | some token => exact startsWith_token token rest (by decide)

/-- What is behind the operands of an instruction starts with a comment or the end of the
line. -/
theorem startsWith_comment (comment : Option Comment) {terminator : Option Terminator}
    (ends : EndsLine terminator rest) :
    StartsWith behindOperands (row comment.toList ++ (row terminator.toList ++ rest)) := by
  apply startsWith_row
  · intro kind isComment
    rw [eq_of_beq isComment]
    decide
  · exact (startsWith_terminator ends).mono (by decide)

/-- The terminator of a line is determined by the tokens. -/
theorem terminator_append_inj {first second : Option Terminator} (ends : EndsLine first rest)
    (endsToo : EndsLine second other)
    (same : row first.toList ++ rest = row second.toList ++ other) :
    first = second ∧ rest = other := by
  cases first with
  | none =>
    cases second with
    | none => exact ⟨rfl, same⟩
    | some token =>
      exact absurd same.symm (cons_ne_of_startsWith (by decide) (ends rfl) token _)
  | some token =>
    cases second with
    | none => exact absurd same (cons_ne_of_startsWith (by decide) (endsToo rfl) token _)
    | some otherToken =>
      obtain ⟨head, behind⟩ := List.cons.inj same
      exact ⟨by rw [Subtype.ext head], behind⟩

/-- What is behind the space of a target shows whether it belongs to a label. -/
theorem colon_ne (colon : Colon) (operands : Option (Operand × List NextOperand))
    (comment : Option Comment) {terminator : Option Terminator}
    (ends : EndsLine terminator other) {first second : List Space} :
    row first ++ colon.val :: rest ≠
      row second ++ (operandTokens operands ++
        (row comment.toList ++ (row terminator.toList ++ other))) := by
  intro same
  have marked : StartsWith (.colon :: behindTarget) (colon.val :: rest) :=
    startsWith_token colon rest (by decide)
  have tail := startsWith_operandTokens operands (startsWith_comment comment ends)
  obtain ⟨_, later⟩ := row_append_inj (by decide) marked (tail.mono (by decide)) same
  exact cons_ne_of_startsWith (by decide) tail colon rest later

/-- An instruction that is followed by the end of the source if it is open ends its line. -/
theorem endsLine_of_isOpen {target : Name} {spaces : List Space}
    {operands : Option (Operand × List NextOperand)} {comment : Option Comment}
    {terminator : Option Terminator}
    (ends : (Statement.instruction target spaces operands comment terminator).isOpen = true →
      StartsWith [.endOfFile] rest) : EndsLine terminator rest :=
  fun missing => ends (by simp [Statement.isOpen, missing])

/-- A statement is determined by the tokens if it ends where it may. -/
theorem statement_append_inj {first second : Statement}
    (ends : first.isOpen = true → StartsWith [.endOfFile] rest)
    (endsToo : second.isOpen = true → StartsWith [.endOfFile] other)
    (same : first.tokens ++ rest = second.tokens ++ other) : first = second ∧ rest = other := by
  cases first with
  | label name spaces colon =>
    cases second with
    | label otherName more otherColon =>
      simp only [Statement.tokens, List.cons_append, List.append_assoc, List.nil_append] at same
      obtain ⟨head, tail⟩ := List.cons.inj same
      have marked (colon : Colon) (rest : List Token) : StartsWith [.colon] (colon.val :: rest) :=
        startsWith_token colon rest (by decide)
      obtain ⟨rfl, later⟩ := row_append_inj (by decide) (marked colon rest)
        (marked otherColon other) tail
      obtain ⟨mark, behind⟩ := List.cons.inj later
      exact ⟨by rw [Subtype.ext head, Subtype.ext mark], behind⟩
    | instruction target more operands comment terminator =>
      have endsLine := endsLine_of_isOpen endsToo
      simp only [Statement.tokens, List.cons_append, List.append_assoc, List.nil_append] at same
      exact absurd (List.cons.inj same).2 (colon_ne colon operands comment endsLine)
  | instruction target spaces operands comment terminator =>
    have endsLine := endsLine_of_isOpen ends
    cases second with
    | label name more colon =>
      simp only [Statement.tokens, List.cons_append, List.append_assoc, List.nil_append] at same
      exact absurd (List.cons.inj same).2.symm (colon_ne colon operands comment endsLine)
    | instruction otherTarget more otherOperands otherComment otherTerminator =>
      have endsLineToo := endsLine_of_isOpen endsToo
      simp only [Statement.tokens, List.cons_append, List.append_assoc] at same
      obtain ⟨head, tail⟩ := List.cons.inj same
      have stops := startsWith_comment comment endsLine
      have stopsToo := startsWith_comment otherComment endsLineToo
      obtain ⟨rfl, operandsSame⟩ := row_append_inj (by decide)
        (startsWith_operandTokens operands stops) (startsWith_operandTokens otherOperands stopsToo)
        tail
      obtain ⟨rfl, commentSame⟩ := operandTokens_append_inj stops stopsToo operandsSame
      obtain ⟨rfl, terminatorSame⟩ := optional_append_inj (by decide)
        (startsWith_terminator endsLine) (startsWith_terminator endsLineToo) commentSame
      obtain ⟨rfl, behind⟩ := terminator_append_inj endsLine endsLineToo terminatorSame
      exact ⟨by rw [Subtype.ext head], behind⟩

theorem tokensOf_nil (endOfFile : EndOfFile) : tokensOf [] endOfFile = [endOfFile.val] := rfl

theorem tokensOf_cons (statement : Statement) (trivia : List Trivia)
    (others : List (Statement × List Trivia)) (endOfFile : EndOfFile) :
    tokensOf ((statement, trivia) :: others) endOfFile =
      statement.tokens ++ (row trivia ++ tokensOf others endOfFile) := by
  simp [tokensOf]

/-- A statement starts with a name. -/
theorem exists_tokens_eq_cons (statement : Statement) :
    ∃ (name : Name) (more : List Token), statement.tokens = name.val :: more := by
  cases statement with
  | label name spaces colon => exact ⟨name, _, rfl⟩
  | instruction target spaces operands comment terminator =>
    exact ⟨target, _, rfl⟩

/-- The end of a source is not the start of a statement. -/
theorem tokensOf_nil_ne_cons (endOfFile other : EndOfFile) (line : Statement × List Trivia)
    (others : List (Statement × List Trivia)) :
    tokensOf [] endOfFile ≠ tokensOf (line :: others) other := by
  obtain ⟨name, more, same⟩ := exists_tokens_eq_cons line.1
  have atEnd : StartsWith [.endOfFile] [endOfFile.val] :=
    startsWith_token endOfFile [] (by decide)
  rw [tokensOf_nil, tokensOf_cons, same]
  exact (cons_ne_of_startsWith (by decide) atEnd name _).symm

/-- Statements and the end of the source start with a name or the end of the source. -/
theorem startsWith_tokensOf (lines : List (Statement × List Trivia)) (endOfFile : EndOfFile) :
    StartsWith [.identifier, .endOfFile] (tokensOf lines endOfFile) := by
  cases lines with
  | nil => exact startsWith_token endOfFile [] (by decide)
  | cons line others =>
    obtain ⟨name, more, same⟩ := exists_tokens_eq_cons line.1
    rw [tokensOf_cons, same]
    exact startsWith_token name _ (by decide)

theorem startsWith_of_head? {kind : TokenKind} (head : rest.head?.map (·.kind) = some kind) :
    StartsWith [kind] rest := by
  intro token first
  rw [Option.mem_def.mp first, Option.map_some, Option.some.injEq] at head
  exact List.mem_singleton.mpr head

/-- Layout is determined by the tokens if statements or the end of the source follow. -/
theorem trivia_append_inj {first second : List Trivia}
    {lines others : List (Statement × List Trivia)} {endOfFile other : EndOfFile}
    (same : row first ++ tokensOf lines endOfFile = row second ++ tokensOf others other) :
    first = second ∧ tokensOf lines endOfFile = tokensOf others other :=
  row_append_inj (by decide) (startsWith_tokensOf lines endOfFile)
    (startsWith_tokensOf others other) same

/-- The statements of a source and its end are determined by the tokens. -/
theorem tokensOf_inj {first second : List (Statement × List Trivia)}
    {endOfFile other : EndOfFile} (looksAhead : LooksAhead endOfFile first)
    (looksAheadToo : LooksAhead other second)
    (same : tokensOf first endOfFile = tokensOf second other) :
    first = second ∧ endOfFile = other := by
  induction first generalizing second with
  | nil =>
    cases second with
    | nil => exact ⟨rfl, Subtype.ext (List.cons.inj same).1⟩
    | cons line others => exact absurd same (tokensOf_nil_ne_cons _ _ _ _)
  | cons line others ih =>
    cases second with
    | nil => exact absurd same.symm (tokensOf_nil_ne_cons _ _ _ _)
    | cons otherLine more =>
      obtain ⟨statement, trivia⟩ := line
      obtain ⟨otherStatement, otherTrivia⟩ := otherLine
      rw [tokensOf_cons, tokensOf_cons] at same
      obtain ⟨rfl, later⟩ := statement_append_inj
        (fun isOpen => startsWith_of_head? (looksAhead.1 isOpen))
        (fun isOpen => startsWith_of_head? (looksAheadToo.1 isOpen)) same
      obtain ⟨rfl, behind⟩ := trivia_append_inj later
      obtain ⟨rfl, ends⟩ := ih looksAhead.2 looksAheadToo.2 behind
      exact ⟨rfl, ends⟩

/-- The derivation of tokens is unique. -/
theorem Source.Derives.unique {first second : Source} {tokens : List Token}
    (derives : first.Derives tokens) (derivesToo : second.Derives tokens) : first = second := by
  obtain ⟨leading, lines, endOfFile⟩ := first
  obtain ⟨otherLeading, otherLines, otherEnd⟩ := second
  obtain ⟨rfl, behind⟩ := trivia_append_inj (derives.tokens.trans derivesToo.tokens.symm)
  obtain ⟨rfl, rfl⟩ := tokensOf_inj derives.looksAhead derivesToo.looksAhead behind
  rfl

end Assembly8085.Grammar
