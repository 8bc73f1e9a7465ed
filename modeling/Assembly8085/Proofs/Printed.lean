import Assembly8085.Proofs.Lexeme
import Assembly8085.Proofs.Reading
import Assembly8085.Proofs.Spelling
import Assembly8085.Proofs.Term

/-!
# Printed lines

A statement is printed as one line. Its lexemes are known without a scan, and the scan finds
these and no others, whatever follows the line. A reading passes over them and completes a
statement that holds the same, at another place.
-/
namespace Assembly8085

namespace Lexeme

/-- The end of a printed line. -/
def lineFeed : Lexeme := .token .terminator ['\n']

/-- What stands in front of a printed operand. -/
def blank : Lexeme := .token .space [' ']

/-- What stands between printed operands. -/
def comma : Lexeme := .token .delimiter [',']

/-- What stands behind the printed name of a label. -/
def colon : Lexeme := .token .colon [':']

/-- The rendering of a value is a lawful integer. -/
theorem isLawful_render (value : UInt64) :
    (Lexeme.token .integer (Literal.render value)).isLawful = true :=
  Literal.isLawful_of_decode (Literal.decode_render value)

end Lexeme

namespace Token

/-- The lexeme that the leaf of a token is printed as. -/
def printed (token : Token) : Lexeme :=
  .token (if token.kind = .identifier then .identifier else .integer)
    (token.build SyntaxTree.printNode)

/-- The token that the printed leaf of a token is read as, at an offset. -/
def again (token : Token) (position : Nat) : Token :=
  ⟨if token.kind = .identifier then .identifier else .integer, token.printed.text, position⟩

/-- A printed leaf is read as the same leaf. -/
theorem content_again {γ : Type} (token : Token) (position : Nat) :
    ((token.again position).content : NodeData γ) = token.content := by
  unfold content again
  split <;> rename_i identifier
  · simp [identifier, printed, Lexeme.text, build, content, SyntaxTree.printNode]
  · simp [identifier, printed, Lexeme.text, build, content, SyntaxTree.printNode,
      Literal.decode_render]

/-- What is made of a printed leaf is what is made of the leaf. -/
theorem build_again {α : Type} (make : NodeData α → α) (token : Token) (position : Nat) :
    (token.again position).build make = token.build make :=
  congrArg make (token.content_again position)

/-- A printed leaf is read as an identifier or an integer. -/
theorem kind_again (token : Token) (position : Nat) :
    (token.again position).kind = .identifier ∨ (token.again position).kind = .integer := by
  unfold again
  split <;> simp

/-- A printed leaf is a lawful lexeme if the token has the text of one. -/
theorem isLawful_printed {token : Token}
    (lawful : (Lexeme.token token.kind token.text).isLawful = true) :
    token.printed.isLawful = true := by
  by_cases identifier : token.kind = .identifier
  · rw [identifier] at lawful
    simpa [printed, identifier, build, content, SyntaxTree.printNode] using lawful
  · simpa [printed, identifier, build, content, SyntaxTree.printNode] using
      Lexeme.isLawful_render ((Literal.decode token.text).getD 0)

/-- The text of a printed leaf starts with no blank. -/
theorem exists_text_printed_eq_cons {token : Token} (lawful : token.printed.isLawful = true) :
    ∃ first rest, token.printed.text = first :: rest ∧ isBlank first = false := by
  obtain ⟨first, rest, same⟩ :=
    List.exists_cons_of_ne_nil (Lexeme.text_ne_nil_of_isLawful lawful)
  refine ⟨first, rest, same, ?_⟩
  rw [Bool.eq_false_iff]
  intro wrong
  rw [printed, Lexeme.text] at same
  rw [printed, same, Lexeme.isLawful, Bool.and_eq_true, beq_iff_eq] at lawful
  have starts := lawful.1
  simp only [TokenKind.startedBy?, wrong, if_true] at starts
  split at starts <;> contradiction

end Token

namespace Lexeme

/-- A comma, a colon and the end of a line can stand in front of anything. -/
theorem munched_mark {mark : Lexeme} (isMark : mark ∈ [comma, colon, lineFeed])
    {ahead : List Lexeme} (munched : Munched ahead) : Munched (mark :: ahead) := by
  simp only [List.mem_cons, List.not_mem_nil, or_false] at isMark
  rcases isMark with rfl | rfl | rfl
  · exact ⟨by decide, fun _ _ => rfl, munched⟩
  · exact ⟨by decide, fun _ _ => rfl, munched⟩
  · exact ⟨by decide, fun _ _ => rfl, munched⟩

/-- A blank can stand in front of a printed leaf. -/
theorem munched_blank {token : Token} {ahead : List Lexeme}
    (munched : Munched (token.printed :: ahead)) : Munched (blank :: token.printed :: ahead) := by
  refine ⟨by decide, ?_, munched⟩
  obtain ⟨first, rest, same, other⟩ := Token.exists_text_printed_eq_cons munched.1
  intro c head
  rw [List.flatMap_cons, same] at head
  obtain rfl := Option.some.inj head
  exact other

/-- A printed leaf can stand in front of what separates it from others. -/
theorem munched_printed {token : Token}
    (lawful : (Lexeme.token token.kind token.text).isLawful = true) {mark : Lexeme}
    (isMark : mark ∈ [blank, comma, colon, lineFeed]) {ahead : List Lexeme}
    (munched : Munched (mark :: ahead)) : Munched (token.printed :: mark :: ahead) := by
  refine ⟨Token.isLawful_printed lawful, ?_, munched⟩
  intro c head
  have stops : TokenKind.continuesWith .identifier c = false ∧
      TokenKind.continuesWith .integer c = false := by
    simp only [List.mem_cons, List.not_mem_nil, or_false] at isMark
    rcases isMark with rfl | rfl | rfl | rfl <;> obtain rfl := Option.some.inj head <;> decide
  unfold Token.printed
  split
  · exact stops.1
  · exact stops.2

end Lexeme

namespace Statement

/-- The lexemes that operands behind the first one are printed as. -/
def printedBehind (operands : List Token) : List Lexeme :=
  operands.flatMap fun operand => [Lexeme.comma, Lexeme.blank, operand.printed]

/-- The lexemes of the line that a statement is printed as. -/
def printed : Statement → List Lexeme
  | .label name _ => [name.printed, Lexeme.colon, Lexeme.lineFeed]
  | .instruction target [] _ => [target.printed, Lexeme.lineFeed]
  | .instruction target (first :: others) _ =>
    target.printed :: Lexeme.blank :: first.printed ::
      (printedBehind others ++ [Lexeme.lineFeed])

/-- Operands are printed as the first one and then the others, each behind a comma. -/
theorem intercalate_build (first : Token) (others : List Token) :
    [',', ' '].intercalate ((first :: others).map (·.build SyntaxTree.printNode)) =
      first.printed.text ++ (printedBehind others).flatMap Lexeme.text := by
  induction others generalizing first with
  | nil => simp [printedBehind, Token.printed, Lexeme.text]
  | cons second more ih =>
    have later := ih second
    simp only [List.map_cons, List.intercalate_cons_cons] at later ⊢
    rw [later]
    simp [printedBehind, Token.printed, Lexeme.text, Lexeme.comma, Lexeme.blank]

/-- The lexemes of a printed line make up the printed statement and the end of the line. -/
theorem flatMap_text_printed (statement : Statement) :
    statement.printed.flatMap Lexeme.text = statement.build SyntaxTree.printNode ++ ['\n'] := by
  cases statement with
  | label name stop =>
    simp [printed, build, SyntaxTree.printNode, Token.printed, Lexeme.text, Lexeme.colon,
      Lexeme.lineFeed]
  | instruction target operands stop =>
    cases operands with
    | nil =>
      simp [printed, build, SyntaxTree.printNode, Token.printed, Lexeme.text, Lexeme.lineFeed]
    | cons first others =>
      have joined := intercalate_build first others
      simp only [List.map_cons] at joined
      simp only [build, List.map_cons, SyntaxTree.printNode, joined, printed, List.flatMap_cons,
        List.flatMap_append]
      simp [Token.printed, Lexeme.text, Lexeme.lineFeed, Lexeme.blank]

open Lexeme in
/-- The scan finds the lexemes of a printed line if its leaves have lawful texts. -/
theorem munched_printed_append {statement : Statement}
    (lawful : ∀ leaf ∈ statement.leaves, (Lexeme.token leaf.kind leaf.text).isLawful = true)
    {ahead : List Lexeme} (munched : Munched ahead) : Munched (statement.printed ++ ahead) := by
  have ended := munched_mark (by simp : lineFeed ∈ [comma, colon, lineFeed]) munched
  cases statement with
  | label name stop =>
    have marked := munched_mark (by simp : colon ∈ [comma, colon, lineFeed]) ended
    exact munched_printed (lawful name (List.mem_cons_self ..)) (by simp) marked
  | instruction target operands stop =>
    have targetLawful := lawful target (List.mem_cons_self ..)
    cases operands with
    | nil => exact munched_printed targetLawful (by simp) ended
    | cons first others =>
      -- Each operand ends at the comma of the next one, or at the end of the line.
      have row (first : Token) (others : List Token)
          (each : ∀ operand ∈ first :: others,
            (Lexeme.token operand.kind operand.text).isLawful = true) :
          Munched (first.printed :: (printedBehind others ++ lineFeed :: ahead)) := by
        induction others generalizing first with
        | nil => exact munched_printed (each first (List.mem_cons_self ..)) (by simp) ended
        | cons second more ih =>
          have later := ih second fun operand member => each operand (List.mem_cons_of_mem _ member)
          have marked := munched_mark (by simp : comma ∈ [comma, colon, lineFeed])
            (munched_blank later)
          exact munched_printed (each first (List.mem_cons_self ..)) (by simp) marked
      have operandsMunched := row first others fun operand member =>
        lawful operand (List.mem_cons_of_mem _ member)
      simpa [printed] using munched_printed targetLawful (by simp) (munched_blank operandsMunched)

end Statement

namespace Reading

/-- A printed leaf is an operand where one may stand. -/
theorem step_again (draft : Draft) (token : Token) (position : Nat) :
    (afterTarget draft).step (token.again position) =
        .onward (.afterOperand (draft.add (token.again position))) ∧
      (afterDelimiter draft).step (token.again position) =
        .onward (.afterOperand (draft.add (token.again position))) := by
  rcases token.kind_again position with kind | kind <;> simp [step, kind]

/-- The printed operands behind the first one are read up to the end of the line. -/
theorem passes_printedBehind (draft : Draft) (position : Nat) (operands : List Token) :
    ∃ again stop,
      again.map (·.build Term.node) = operands.map (·.build Term.node) ∧
      (afterOperand draft).Passes
        (Lexeme.tokensFrom position (Statement.printedBehind operands ++ [Lexeme.lineFeed]))
        .betweenStatements [.instruction draft.target (draft.operands ++ again) stop] := by
  induction operands generalizing draft position with
  | nil =>
    let lineFeed : Token := ⟨.terminator, ['\n'], position⟩
    refine ⟨[], lineFeed.stop, rfl, ?_⟩
    have ended : (afterOperand draft).step lineFeed = .complete (draft.close lineFeed.stop) := rfl
    rw [List.append_nil]
    exact Passes.cons lineFeed ended (passes_nil .betweenStatements)
  | cons operand others ih =>
    let comma : Token := ⟨.delimiter, [','], position⟩
    let blank : Token := ⟨.space, [' '], comma.stop⟩
    let found : Token := operand.again blank.stop
    obtain ⟨again, stop, same, passes⟩ :=
      ih (((draft.pass comma).pass blank).add found) found.stop
    refine ⟨found :: again, stop, ?_, ?_⟩
    · rw [List.map_cons, List.map_cons, same, Token.build_again]
    · have separated : (afterOperand draft).step comma =
          .onward (.afterDelimiter (draft.pass comma)) := rfl
      have spaced : (afterDelimiter (draft.pass comma)).step blank =
          .onward (.afterDelimiter ((draft.pass comma).pass blank)) := rfl
      have read := (step_again ((draft.pass comma).pass blank) operand blank.stop).2
      rw [List.append_cons draft.operands found again]
      exact Passes.cons comma separated (Passes.cons blank spaced (Passes.cons found read passes))

end Reading

namespace Statement

/-- A printed line is read as a statement that holds the same. -/
theorem passes_printed {statement : Statement} (wellFormed : statement.WellFormed)
    (position : Nat) :
    ∃ again : Statement, again.build Term.node = statement.build Term.node ∧
      Reading.betweenStatements.Passes (Lexeme.tokensFrom position statement.printed)
        .betweenStatements [again] := by
  let target : Token := statement.head.again position
  have identifier : target.kind = .identifier := by
    simp [target, Token.again, wellFormed.head]
  have start : Reading.betweenStatements.step target = .onward (.afterTarget (.start target)) := by
    simp [Reading.step, identifier]
  have same : target.build Term.node = statement.head.build Term.node := Token.build_again ..
  cases statement with
  | label name stop =>
    let colon : Token := ⟨.colon, [':'], target.stop⟩
    let lineFeed : Token := ⟨.terminator, ['\n'], colon.stop⟩
    refine ⟨.label target colon.stop, congrArg (fun name => Term.node (.label name)) same, ?_⟩
    have named : (Reading.afterTarget (.start target)).step colon =
        .complete (.label target colon.stop) := rfl
    have ended : Reading.betweenStatements.step lineFeed = .onward .betweenStatements := rfl
    exact Reading.Passes.cons target start (Reading.Passes.cons colon named
      (Reading.Passes.cons lineFeed ended (Reading.passes_nil .betweenStatements)))
  | instruction name operands stop =>
    cases operands with
    | nil =>
      let lineFeed : Token := ⟨.terminator, ['\n'], target.stop⟩
      refine ⟨.instruction target [] lineFeed.stop,
        congrArg (fun name => Term.node (.instruction name [])) same, ?_⟩
      have ended : (Reading.afterTarget (.start target)).step lineFeed =
          .complete (.instruction target [] lineFeed.stop) := rfl
      exact Reading.Passes.cons target start
        (Reading.Passes.cons lineFeed ended (Reading.passes_nil .betweenStatements))
    | cons first others =>
      let blank : Token := ⟨.space, [' '], target.stop⟩
      let found : Token := first.again blank.stop
      have spaced : (Reading.afterTarget (.start target)).step blank =
          .onward (.afterTarget ((Draft.start target).pass blank)) := rfl
      have read := (Reading.step_again ((Draft.start target).pass blank) first blank.stop).1
      obtain ⟨again, stop, sameBehind, passes⟩ := Reading.passes_printedBehind
        (((Draft.start target).pass blank).add found) found.stop others
      refine ⟨.instruction target (found :: again) stop, ?_, ?_⟩
      · simp only [build, List.map_cons, sameBehind, same, found, Token.build_again, head]
      · exact Reading.Passes.cons target start
          (Reading.Passes.cons blank spaced (Reading.Passes.cons found read passes))

end Statement

end Assembly8085
