import Assembly8085.Proofs.Lexeme

/-!
# Stray characters

Which characters stray is said without lexemes: those that no token is made of, except in a
comment, and in a comment is whatever stands behind a semicolon of the same line.
-/
namespace Assembly8085

/-- A character that tokens other than comments are made of. -/
def isExpected (c : Char) : Bool :=
  c.isAlphanum || c ∈ ['_', '.', ',', ':', ';', ' ', '\t', '\n', '\r']

/-- A text breaks off within a comment: there is a semicolon on its last line. -/
def InComment (text : List Char) : Prop :=
  ∃ front line, text = front ++ ';' :: line ∧ ∀ c ∈ line, isLineBreak c = false

/-- Expected characters are those that start a token. -/
theorem isSome_startedBy? (c : Char) : (TokenKind.startedBy? c).isSome = isExpected c := by
  rw [Bool.eq_iff_iff]
  simp only [TokenKind.startedBy?, isBlank, isLineBreak, startsIdentifier, isExpected,
    Char.isAlphanum, List.mem_cons, List.not_mem_nil, or_false]
  grind

/-- A token other than a comment goes on with expected characters only. -/
theorem isExpected_of_continuesWith {kind : TokenKind} (other : kind ≠ .comment) {c : Char}
    (continued : kind.continuesWith c = true) : isExpected c = true := by
  cases kind with
  | comment => contradiction
  | space | identifier | integer =>
    simp only [TokenKind.continuesWith, isBlank, isExpected] at continued ⊢
    grind
  | _ => contradiction

namespace Lexeme

/-- A comment starts with a semicolon, and its line does not end in it. -/
theorem comment_of_isLawful {characters : List Char}
    (lawful : (Lexeme.token .comment characters).isLawful = true) :
    ∃ more, characters = ';' :: more ∧ ∀ c ∈ more, isLineBreak c = false := by
  cases characters with
  | nil => contradiction
  | cons first more =>
    simp only [isLawful, Bool.and_eq_true, Bool.or_eq_true, beq_iff_eq] at lawful
    obtain ⟨starts, run | ⟨rfl, _⟩⟩ := lawful
    · have semicolon : first = ';' := by
        simp only [TokenKind.startedBy?] at starts
        grind
      refine ⟨more, by rw [semicolon], ?_⟩
      intro c member
      simpa [TokenKind.continuesWith] using List.all_eq_true.mp run c member
    · contradiction

/-- A character of a lawful token other than a comment is expected, and it is no semicolon. -/
theorem isExpected_of_mem {kind : TokenKind} {characters : List Char}
    (lawful : (Lexeme.token kind characters).isLawful = true) (other : kind ≠ .comment)
    {c : Char} (member : c ∈ characters) : isExpected c = true ∧ c ≠ ';' := by
  cases characters with
  | nil => contradiction
  | cons first more =>
    simp only [isLawful, Bool.and_eq_true, Bool.or_eq_true, beq_iff_eq] at lawful
    obtain ⟨starts, run⟩ := lawful
    rcases List.mem_cons.mp member with rfl | behind
    · refine ⟨by rw [← isSome_startedBy?, starts]; rfl, ?_⟩
      rintro rfl
      exact other (Option.some.inj starts).symm
    · rcases run with run | ⟨_, same⟩
      · have continued := List.all_eq_true.mp run c behind
        refine ⟨isExpected_of_continuesWith other continued, ?_⟩
        rintro rfl
        cases kind <;> contradiction
      · rw [same, List.mem_singleton] at behind
        subst behind
        decide

/-- A character of the text of lexemes stands in one of them. -/
theorem exists_of_flatMap_text_eq {lexemes : List Lexeme} {before after : List Char} {c : Char}
    (whole : lexemes.flatMap text = before ++ c :: after) :
    ∃ earlier lexeme later front back, lexemes = earlier ++ lexeme :: later ∧
      lexeme.text = front ++ c :: back ∧ before = earlier.flatMap text ++ front ∧
      after = back ++ later.flatMap text := by
  induction lexemes generalizing before with
  | nil => simp at whole
  | cons lexeme others ih =>
    rw [List.flatMap_cons, List.append_eq_append_iff] at whole
    rcases whole with ⟨front, rfl, rest⟩ | ⟨back, here, rest⟩
    · obtain ⟨earlier, found, later, start, back, rfl, text, rfl, rfl⟩ := ih rest
      exact ⟨lexeme :: earlier, found, later, start, back, rfl, text, by simp, rfl⟩
    · cases back with
      | cons _ back =>
        obtain ⟨rfl, rfl⟩ := List.cons.inj rest
        exact ⟨[], lexeme, others, before, back, rfl, here, rfl, rfl⟩
      | nil =>
        have behind : others.flatMap text = [] ++ c :: after := rest.symm
        obtain ⟨earlier, found, later, start, back, rfl, text, nil, rfl⟩ := ih behind
        rw [List.append_nil] at here
        refine ⟨lexeme :: earlier, found, later, start, back, rfl, text, ?_, rfl⟩
        rw [List.flatMap_cons, List.append_assoc, ← nil, List.append_nil, here]

/-- A lawful token with an unexpected character or a semicolon is a comment. -/
theorem eq_comment_of_mem {kind : TokenKind} {characters : List Char}
    (lawful : (Lexeme.token kind characters).isLawful = true) {c : Char}
    (member : c ∈ characters) (odd : isExpected c = false ∨ c = ';') : kind = .comment := by
  apply Decidable.byContradiction
  intro other
  obtain ⟨expected, noSemicolon⟩ := isExpected_of_mem lawful other member
  rcases odd with unexpected | semicolon
  · rw [expected] at unexpected
    contradiction
  · exact noSemicolon semicolon

/-- What is behind the first lexemes is cut by longest match too. -/
theorem Munched.of_append {first second : List Lexeme} (munched : Munched (first ++ second)) :
    Munched second := by
  induction first with
  | nil => exact munched
  | cons lexeme others ih => exact ih munched.2.2

/-- A comment goes on up to a line break, so no character strays behind one on its line. -/
theorem not_inComment_of_stray {earlier later : List Lexeme} {c : Char}
    (munched : Munched (earlier ++ .stray c :: later)) : ¬ InComment (earlier.flatMap text) := by
  rintro ⟨front, line, whole, sameLine⟩
  obtain ⟨start, lexeme, between, _, back, rfl, held, _, rfl⟩ := exists_of_flatMap_text_eq whole
  rw [List.append_assoc] at munched
  have behind := Munched.of_append munched
  have lawful : lexeme.isLawful = true := behind.1
  have strays : (Lexeme.stray c).isLawful = true :=
    isLawful_of_mem behind (by simp)
  have member : ';' ∈ lexeme.text := by simp [held]
  cases lexeme with
  | stray other =>
    obtain rfl := List.mem_singleton.mp member
    contradiction
  | token kind characters =>
    obtain rfl := eq_comment_of_mem lawful member (.inr rfl)
    -- The character right behind the comment is on its line, or is the one that strays.
    have next : ∃ d, (((between ++ .stray c :: later).flatMap text).head? = some d) ∧
        isLineBreak d = false := by
      rw [List.flatMap_append, List.flatMap_cons]
      cases gap : between.flatMap text with
      | nil =>
        refine ⟨c, rfl, ?_⟩
        rw [Bool.eq_false_iff]
        intro lineBreak
        simp [isLawful, startedBy?_of_isLineBreak lineBreak] at strays
      | cons d more => exact ⟨d, rfl, sameLine d (by simp [gap])⟩
    obtain ⟨d, head, same⟩ := next
    have refused := behind.2.1 d head
    simp [goesOn, TokenKind.continuesWith, same] at refused

/-- A character strays behind a part of a text exactly if it stands there, is unexpected, and that
part does not break off within a comment. -/
theorem exists_stray_iff {source before : List Char} {c : Char} :
    (∃ earlier later, ofText source = earlier ++ .stray c :: later ∧
        earlier.flatMap text = before) ↔
      ∃ after, source = before ++ c :: after ∧ isExpected c = false ∧ ¬ InComment before := by
  have munched := munched_ofText source
  have whole := flatMap_text_ofText source
  constructor
  · rintro ⟨earlier, later, same, rfl⟩
    rw [same] at munched whole
    refine ⟨later.flatMap text, ?_, ?_, not_inComment_of_stray munched⟩
    · rw [← whole]
      simp [text]
    · have lawful : (Lexeme.stray c).isLawful = true := isLawful_of_mem munched (by simp)
      rw [← isSome_startedBy?, Option.isSome_eq_false_iff]
      exact lawful
  · rintro ⟨after, rfl, unexpected, outside⟩
    obtain ⟨earlier, lexeme, later, front, back, same, held, rfl, _⟩ :=
      exists_of_flatMap_text_eq whole
    rw [same] at munched
    have lawful : lexeme.isLawful = true := isLawful_of_mem munched (by simp)
    have member : c ∈ lexeme.text := by simp [held]
    cases lexeme with
    | stray other =>
      obtain ⟨rfl, alone⟩ : front = [] ∧ other = c := by
        cases front with
        | nil => exact ⟨rfl, (List.cons.inj held).1⟩
        | cons first others => simp [text] at held
      exact ⟨earlier, later, alone ▸ same, (List.append_nil _).symm⟩
    | token kind characters =>
      obtain rfl := eq_comment_of_mem lawful member (.inl unexpected)
      obtain ⟨more, rfl, sameLine⟩ := comment_of_isLawful lawful
      cases front with
      | nil =>
        obtain ⟨rfl, _⟩ := List.cons.inj held
        contradiction
      | cons first others =>
        obtain ⟨rfl, rest⟩ := List.cons.inj held
        exact absurd ⟨earlier.flatMap text, others, rfl,
          fun d among => sameLine d (by simp [rest, among])⟩ outside

/-- A character strays exactly if it is unexpected and not in a comment. -/
theorem stray_mem_ofText_iff (source : List Char) (c : Char) :
    .stray c ∈ ofText source ↔
      ∃ before after, source = before ++ c :: after ∧ isExpected c = false ∧
        ¬ InComment before := by
  rw [List.mem_iff_append]
  constructor
  · rintro ⟨earlier, later, same⟩
    exact ⟨_, exists_stray_iff.mp ⟨earlier, later, same, rfl⟩⟩
  · rintro ⟨before, standing⟩
    obtain ⟨earlier, later, same, _⟩ := exists_stray_iff.mpr standing
    exact ⟨earlier, later, same⟩

end Lexeme

end Assembly8085
