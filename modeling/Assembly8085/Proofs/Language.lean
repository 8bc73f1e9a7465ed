import Assembly8085.Proofs.Characters
import Assembly8085.Proofs.Derivation
import Assembly8085.Proofs.Modes
import Assembly8085.Proofs.Scan

/-!
# The language

A parse that stops at errors comes through exactly for the sources without stray characters and
malformed numbers whose tokens have a derivation.
-/
namespace Assembly8085

/-- Whether there is an error in a lexeme by itself. -/
def Lexeme.isFaulty (lexeme : Lexeme) : Bool := lexeme.notice?.any (·.isError)

namespace Move

/-- A notice that is an error if there is one is not brought up exactly if there is none. -/
theorem filterMap_error?_reports_eq_nil_iff {notice : Option Notice} :
    (reports notice).filterMap error? = [] ↔ notice.any (·.isError) = false := by
  cases notice with
  | none => simp [reports]
  | some notice => cases error : notice.isError <;> simp [reports, error?, error]

/-- A notice that can only be an error is not brought up exactly if there is none. -/
theorem filterMap_error?_reports_eq_nil_iff_of_isError {notice : Option Notice}
    (isError : ∀ {found}, notice = some found → found.isError = true) :
    (reports notice).filterMap error? = [] ↔ notice = none := by
  rw [filterMap_error?_reports_eq_nil_iff]
  cases notice with
  | none => simp
  | some notice => simp [isError rfl]

/-- There is no error among the moves of a reading exactly if there is none in the lexemes, in
the order of tokens and at the end. -/
theorem filterMap_error?_readingFrom_eq_nil_iff (reading : Reading) (position : Nat)
    (lexemes : List Lexeme) :
    (readingFrom reading position lexemes).filterMap error? = [] ↔
      (∀ lexeme ∈ lexemes, lexeme.isFaulty = false) ∧
        reading.notices (Lexeme.tokensFrom position lexemes) = [] ∧
        (reading.advance (Lexeme.tokensFrom position lexemes)).finish.notice = none := by
  induction lexemes generalizing reading position with
  | nil =>
    have quiet : ending.filterMap error? = [] := rfl
    have quietToo : (if reading.finish.discards then ending else []).filterMap error? = [] := by
      split <;> rfl
    have atEnd := filterMap_error?_reports_eq_nil_iff_of_isError fun there =>
      Notice.isError_of_isParsing (reading.isParsing_finish there)
    simp only [readingFrom, List.filterMap_append, quiet, quietToo, List.nil_append,
      List.append_nil, atEnd]
    simp [Lexeme.tokensFrom, Reading.notices]
  | cons lexeme ahead ih =>
    have taken : (taking lexeme).filterMap error? = [] ↔ lexeme.isFaulty = false :=
      filterMap_error?_reports_eq_nil_iff
    simp only [readingFrom, List.filterMap_append, List.append_eq_nil_iff, taken,
      List.forall_mem_cons, and_assoc]
    refine and_congr_right fun _ => ?_
    cases lexeme with
    | stray c => exact ih reading _
    | token kind text =>
      let token : Token := ⟨kind, text, position⟩
      have order := filterMap_error?_reports_eq_nil_iff_of_isError fun there =>
        Notice.isError_of_isParsing (reading.isParsing_step token there)
      have later := ih (reading.step token).reading (position + Text.byteLength text)
      simp only [Lexeme.kind?, Lexeme.text, Lexeme.tokensFrom, Reading.notices,
        Reading.advance_cons, List.append_eq_nil_iff, Option.toList_eq_nil_iff, List.cons_append,
        List.filterMap_cons_none (show error? (.surface kind) = none from rfl),
        List.filterMap_append]
      rw [order, later]
      constructor
      · rintro ⟨here, each, silent, ends⟩
        exact ⟨each, ⟨here, silent⟩, ends⟩
      · rintro ⟨each, ⟨here, silent⟩, ends⟩
        exact ⟨here, each, silent, ends⟩

/-- There is no error among the moves of a parse exactly if there is none among those of its
reading. -/
theorem filterMap_error?_parsing (position : Nat) (lexemes : List Lexeme) :
    (parsing position lexemes).filterMap error? =
      (readingFrom .betweenStatements position lexemes).filterMap error? := by
  rw [parsing, List.filterMap_append]
  split <;> exact List.append_nil _

end Move

namespace Lexeme

/-- A lexeme is faulty if it is a stray character or a number without a value. -/
theorem isFaulty_eq_false_iff {lexeme : Lexeme} :
    lexeme.isFaulty = false ↔ (∀ c, lexeme ≠ .stray c) ∧
      ∀ text, lexeme = .token .integer text → ∃ value, Literal.decode text = some value := by
  cases lexeme with
  | stray c => simp [isFaulty, notice?, Notice.isError, Notice.severity]
  | token kind text =>
    by_cases integer : kind = .integer
    · subst integer
      cases decoded : Literal.decode text <;>
        simp [isFaulty, notice?, decoded, Notice.isError, Notice.severity]
    · have quiet : (Lexeme.token kind text).isFaulty = false := by
        unfold isFaulty notice?
        split <;> simp_all [Notice.isError, Notice.severity]
      simp [quiet, integer]

/-- A token of a lexeme is among the tokens of lexemes. -/
theorem exists_mem_tokensFrom {kind : TokenKind} {text : List Char} {lexemes : List Lexeme}
    (member : .token kind text ∈ lexemes) (position : Nat) :
    ∃ token ∈ tokensFrom position lexemes, token.kind = kind ∧ token.text = text := by
  obtain ⟨before, after, rfl⟩ := List.append_of_mem member
  exact ⟨⟨kind, text, position + totalLength before⟩,
    mem_tokensFrom_iff.mpr ⟨before, after, rfl, rfl⟩, rfl, rfl⟩

end Lexeme

/-- The lexemes of a source are without fault exactly if unexpected characters stand in comments
only and all numbers have a value. -/
theorem isFaulty_ofText_iff (file : String) (source : List Char) :
    (∀ lexeme ∈ Lexeme.ofText source, lexeme.isFaulty = false) ↔
      (∀ before c after, source = before ++ c :: after → isExpected c = false →
          InComment before) ∧
        ∀ token ∈ surfacedTokens file source, token.kind = .integer →
          ∃ value, Literal.decode token.text = some value := by
  simp only [Lexeme.isFaulty_eq_false_iff, surfacedTokens_eq, List.mem_append]
  constructor
  · intro sound
    refine ⟨?_, ?_⟩
    · intro before c after same unexpected
      apply Classical.byContradiction
      intro outside
      have member := (Lexeme.stray_mem_ofText_iff source c).mpr
        ⟨before, after, same, unexpected, outside⟩
      exact (sound _ member).1 c rfl
    · rintro token (member | last) integer
      · have member := Lexeme.mem_of_mem_tokensFrom member
        exact (sound _ member).2 token.text (by rw [integer])
      · rw [List.mem_singleton.mp last] at integer
        contradiction
  · rintro ⟨characters, numbers⟩ lexeme member
    refine ⟨?_, ?_⟩
    · rintro c rfl
      obtain ⟨before, after, same, unexpected, outside⟩ :=
        (Lexeme.stray_mem_ofText_iff source c).mp member
      exact outside (characters before c after same unexpected)
    · rintro text rfl
      obtain ⟨token, there, integer, rfl⟩ := Lexeme.exists_mem_tokensFrom member 0
      exact numbers token (.inl there) integer

/-- A parse that stops at errors comes through exactly if unexpected characters stand in comments
only, all numbers have a value, and the tokens have a derivation. There is at most one, and
whichever tree a parse finds says what it says. -/
theorem parseSource_failFast_iff_derives (file : String) (source : List Char) :
    ((∃ tree, (parseSource file source .failFast).1 = .ok tree) ↔
        (∀ before c after, source = before ++ c :: after → isExpected c = false →
            InComment before) ∧
          (∀ token ∈ surfacedTokens file source, token.kind = .integer →
            ∃ value, Literal.decode token.text = some value) ∧
          ∃ derivation : Grammar.Source, derivation.Derives (surfacedTokens file source)) ∧
      ∀ derivation : Grammar.Source, derivation.Derives (surfacedTokens file source) →
        (∀ other : Grammar.Source, other.Derives (surfacedTokens file source) →
          other = derivation) ∧
          ∀ mode tree, (parseSource file source mode).1 = .ok tree →
            tree.term = .ok derivation.term := by
  let endOfFile : Grammar.EndOfFile := ⟨⟨.endOfFile, [], Text.byteLength source⟩, rfl⟩
  have surfaced : surfacedTokens file source =
      Lexeme.tokensFrom 0 (Lexeme.ofText source) ++ [endOfFile.val] :=
    surfacedTokens_eq file source
  refine ⟨?_, ?_⟩
  · have none : (parseSource file source .debug).2.errors = [] ↔
        (Move.parsing 0 (Lexeme.ofText source)).filterMap Move.error? = [] := by
      rw [← errors_parseSource_debug file source, List.map_eq_nil_iff]
    have order := Reading.silent_iff_derives endOfFile
      (Lexeme.tokensFrom 0 (Lexeme.ofText source))
    rw [exists_parseSource_failFast_iff, none, Move.filterMap_error?_parsing,
      Move.filterMap_error?_readingFrom_eq_nil_iff, isFaulty_ofText_iff file source, order,
      ← surfaced, and_assoc]
  · intro derivation derives
    refine ⟨fun other derivesToo => derivesToo.unique derives, ?_⟩
    intro mode tree found
    rw [surfaced] at derives
    have accepted := Reading.accepts_of_derives derives
    rw [eq_grown_of_parseSource file source found, Program.term_grown]
    exact congrArg (fun terms => Except.ok (Term.node (.source terms))) accepted.terms

end Assembly8085
