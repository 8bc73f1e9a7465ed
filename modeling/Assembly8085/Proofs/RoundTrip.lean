import Assembly8085.Proofs.Modes
import Assembly8085.Proofs.Printed
import Assembly8085.Proofs.Remarks

/-!
# Printing and reading again

Whatever a source is, the tree that is found for it prints as a source that is without fault and
that has a tree of the same form.
-/
namespace Assembly8085

namespace Lexeme

/-- There is nothing to be said about a printed leaf. -/
theorem notice?_printed (token : Token) : token.printed.notice? = none := by
  by_cases identifier : token.kind = .identifier
  · simp [Token.printed, identifier, notice?]
  · simp [Token.printed, identifier, notice?, Token.build, Token.content, SyntaxTree.printNode,
      Literal.decode_render]

end Lexeme

/-- There is nothing to be said about a lexeme of a printed line. -/
theorem Statement.notice?_of_mem_printed {statement : Statement} {lexeme : Lexeme}
    (member : lexeme ∈ statement.printed) : lexeme.notice? = none := by
  cases statement with
  | label name stop =>
    simp only [printed, List.mem_cons, List.not_mem_nil, or_false] at member
    rcases member with rfl | rfl | rfl
    · exact Lexeme.notice?_printed name
    · rfl
    · rfl
  | instruction target operands stop =>
    cases operands with
    | nil =>
      simp only [printed, List.mem_cons, List.not_mem_nil, or_false] at member
      rcases member with rfl | rfl
      · exact Lexeme.notice?_printed target
      · rfl
    | cons first others =>
      simp only [printed, printedBehind, List.mem_cons, List.mem_append, List.mem_flatMap,
        List.not_mem_nil, or_false] at member
      rcases member with rfl | rfl | rfl | ⟨operand, _, rfl | rfl | rfl⟩ | rfl
      · exact Lexeme.notice?_printed target
      · rfl
      · exact Lexeme.notice?_printed first
      · rfl
      · rfl
      · exact Lexeme.notice?_printed operand
      · rfl

/-- The leaves of a statement have the texts of tokens of their kinds. -/
def Statement.Lawful (statement : Statement) : Prop :=
  ∀ leaf ∈ statement.leaves, (Lexeme.token leaf.kind leaf.text).isLawful = true

namespace Program

/-- The lexemes of the lines that a program is printed as. -/
def printed (program : Program) : List Lexeme := program.statements.flatMap (·.printed)

/-- The lexemes of the printed lines make up the printed program. -/
theorem flatMap_text_printed (program : Program) :
    program.printed.flatMap Lexeme.text = program.build SyntaxTree.printNode := by
  simp [printed, build, SyntaxTree.printNode, List.flatMap_assoc, List.flatMap_map,
    Statement.flatMap_text_printed]

/-- The scan finds the lexemes of the printed lines if all leaves have lawful texts. -/
theorem munched_printed {statements : List Statement}
    (lawful : ∀ statement ∈ statements, statement.Lawful) :
    Lexeme.Munched (statements.flatMap (·.printed)) := by
  induction statements with
  | nil => trivial
  | cons statement others ih =>
    rw [List.flatMap_cons]
    exact Statement.munched_printed_append (lawful statement (List.mem_cons_self ..))
      (ih fun other member => lawful other (List.mem_cons_of_mem _ member))

/-- The printed lines are read as statements that hold the same. -/
theorem passes_printed {statements : List Statement}
    (wellFormed : ∀ statement ∈ statements, statement.WellFormed) (position : Nat) :
    ∃ again : List Statement,
      again.map (·.build Term.node) = statements.map (·.build Term.node) ∧
      Reading.betweenStatements.Passes
        (Lexeme.tokensFrom position (statements.flatMap (·.printed))) .betweenStatements again := by
  induction statements generalizing position with
  | nil => exact ⟨[], rfl, Reading.passes_nil .betweenStatements⟩
  | cons statement others ih =>
    obtain ⟨first, same, here⟩ :=
      Statement.passes_printed (wellFormed statement (List.mem_cons_self ..)) position
    obtain ⟨behind, sameBehind, later⟩ :=
      ih (fun other member => wellFormed other (List.mem_cons_of_mem _ member))
        (position + Lexeme.totalLength statement.printed)
    refine ⟨first :: behind, by rw [List.map_cons, List.map_cons, same, sameBehind], ?_⟩
    rw [List.flatMap_cons, Lexeme.tokensFrom_append]
    exact here.append later

/-- A printed program ends its last line. -/
theorem isUnended_printed (program : Program) :
    isUnended (program.build SyntaxTree.printNode) = false := by
  rw [← flatMap_text_printed, printed]
  rcases List.eq_nil_or_concat program.statements with none | ⟨before, last, same⟩
  · rw [none]
    rfl
  · rw [same, List.concat_eq_append]
    simp [isUnended, List.flatMap_append, List.flatMap_assoc, Statement.flatMap_text_printed,
      isLineBreak]

/-- The leaves of all statements have lawful texts. -/
def Lawful (program : Program) : Prop := ∀ statement ∈ program.statements, statement.Lawful

/-- The program that the printed form of a program is holds the same, and there is nothing to be
said about it. -/
theorem ofText_printed_of_lawful {program : Program} (wellFormed : program.WellFormed)
    (lawful : program.Lawful) :
    let text := program.build SyntaxTree.printNode
    (Program.ofLexemes 0 (Lexeme.ofText text)).statements.map (·.build Term.node) =
        program.statements.map (·.build Term.node) ∧
      remarksOn text = [] := by
  intro text
  have lexemes : Lexeme.ofText text = program.printed := by
    have munched : Lexeme.Munched program.printed := munched_printed lawful
    have found := Lexeme.ofText_flatMap munched
    rwa [flatMap_text_printed] at found
  obtain ⟨again, same, passes⟩ : ∃ again : List Statement,
      again.map (·.build Term.node) = program.statements.map (·.build Term.node) ∧
      Reading.betweenStatements.Passes (Lexeme.tokensFrom 0 program.printed)
        .betweenStatements again :=
    passes_printed wellFormed 0
  have silent : Reading.betweenStatements.remarks 0 program.printed = [] := by
    apply Reading.remarks_eq_nil _ passes.notices
    intro lexeme member
    obtain ⟨statement, _, there⟩ := List.mem_flatMap.mp member
    exact Statement.notice?_of_mem_printed there
  refine ⟨?_, ?_⟩
  · rw [lexemes, ofLexemes, Reading.statements_eq, passes.completed, passes.advance, ← same]
    exact congrArg _ (List.append_nil again)
  · rw [remarksOn, lexemes, Reading.remarksToEnd, silent, passes.advance,
      program.isUnended_printed]
    rfl

/-- The leaves of the program that a source is have lawful texts. -/
theorem lawful_ofText (source : List Char) : (ofLexemes 0 (Lexeme.ofText source)).Lawful := by
  intro statement member leaf isLeaf
  have read := (sound_ofLexemes 0 (Lexeme.ofText source) statement member).leaves leaf isLeaf
  exact Lexeme.isLawful_of_mem (Lexeme.munched_ofText source) (Lexeme.mem_of_mem_tokensFrom read)

/-- The program that the printed form of a source's program is holds the same, and there is
nothing to be said about it. -/
theorem ofText_printed (source : List Char) :
    let program := Program.ofLexemes 0 (Lexeme.ofText source)
    let text := program.build SyntaxTree.printNode
    (Program.ofLexemes 0 (Lexeme.ofText text)).statements.map (·.build Term.node) =
        program.statements.map (·.build Term.node) ∧
      remarksOn text = [] :=
  ofText_printed_of_lawful (wellFormed_ofLexemes 0 (Lexeme.ofText source)) (lawful_ofText source)

end Program

/-- Whatever a source is, its tree prints as a source that both modes read without a notice, as a
tree with the same nodes but for their places, which prints the same. -/
theorem parseSource_print (file other : String) (source : List Char) :
    ∃ (tree : SyntaxTree) (printed : List Char) (again : SyntaxTree),
      (parseSource file source .debug).1 = .ok tree ∧
      tree.print = .ok printed ∧
      (parseSource other printed .debug).1 = .ok again ∧
      (parseSource other printed .failFast).1 = .ok again ∧
      (parseSource other printed .debug).2.diagnostics = #[] ∧
      again.nodes.size = tree.nodes.size ∧ again.root = tree.root ∧
      (∀ id, (again.node id).map Node.form = (tree.node id).map Node.form) ∧
      again.print = .ok printed := by
  let program := Program.ofLexemes 0 (Lexeme.ofText source)
  let printed := program.build SyntaxTree.printNode
  let again := Program.ofLexemes 0 (Lexeme.ofText printed)
  obtain ⟨same, silent⟩ := Program.ofText_printed source
  obtain ⟨size, root, forms⟩ := Program.grown_eq_of_build_eq same
  have reprinted : again.build SyntaxTree.printNode = printed := by
    have each := map_eq_of_map_eq
      (Statement.build_eq_of_build_eq SyntaxTree.printNode) same
    exact congrArg (fun statements => SyntaxTree.printNode (.source statements)) each
  have diagnostics : (parseSource other printed .debug).2.diagnostics.toList = [] := by
    rw [diagnostics_parseSource, silent]
    rfl
  have through : (parseSource other printed .failFast).1 = .ok again.grown := by
    obtain ⟨after, _, failFast⟩ := parseSource_failFast_of_errors_eq_nil other printed
      (by rw [Session.errors, diagnostics]; rfl)
    rw [failFast]
  refine ⟨program.grown, printed, again.grown, fst_parseSource_debug file source,
    program.print_grown, fst_parseSource_debug other printed, through,
    Array.toList_eq_nil_iff.mp diagnostics, size, root, forms, ?_⟩
  rw [again.print_grown, reprinted]

end Assembly8085
