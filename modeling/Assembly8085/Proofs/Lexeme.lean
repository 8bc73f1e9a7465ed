import Assembly8085.Lexeme

/-!
# Lexemes by longest match

What it means that a text is cut into lexemes by longest match is said without the scanner: each
lexeme is lawful, which goes by its characters alone, and ends where the next character cannot
belong to it. The scanner finds such lexemes, and there are no others, so the lexemes of a text
are known as soon as a list of them with these two properties is.
-/
namespace Assembly8085.Lexeme

/-- What a lexeme gives rise to say: a stray character is unexpected, a carriage return alone lacks
its line feed, and a number may have no value. -/
theorem notice?_eq_some_iff {lexeme : Lexeme} {notice : Notice} :
    lexeme.notice? = some notice ↔
      (∃ c, lexeme = .stray c ∧ notice = .unexpectedCharacter c) ∨
        (lexeme = .token .terminator ['\r'] ∧ notice = .expectedLineFeed) ∨
        ∃ text, lexeme = .token .integer text ∧ Literal.decode text = none ∧
          notice = .malformedInteger text := by
  unfold notice?
  split <;> grind [Option.isNone_iff_eq_none]

/-- Whether a lexeme is one that may stand in a source: a token starts with a character that
starts its kind and goes on with characters that continue it, or is a carriage return with its
line feed; a stray character starts no token. -/
def isLawful : Lexeme → Bool
  | .token _ [] => false
  | .token kind (c :: more) =>
    TokenKind.startedBy? c == some kind &&
      (more.all kind.continuesWith || (c == '\r' && more == ['\n']))
  | .stray c => (TokenKind.startedBy? c).isNone

/-- Whether a lexeme would be longer if a character stood behind it. -/
def goesOn : Lexeme → Char → Bool
  | .token .terminator text, c => text == ['\r'] && c == '\n'
  | .token kind _, c => kind.continuesWith c
  | .stray _, _ => false

/-- The text behind a lexeme does not start with a character that makes the lexeme longer. -/
def EndsBefore (lexeme : Lexeme) (rest : List Char) : Prop :=
  ∀ c, rest.head? = some c → lexeme.goesOn c = false

instance decidableEndsBefore (lexeme : Lexeme) : (rest : List Char) →
    Decidable (lexeme.EndsBefore rest)
  | [] => .isTrue (by simp [EndsBefore])
  | c :: _ => decidable_of_iff (lexeme.goesOn c = false) (by simp [EndsBefore])

/-- Only the first character of what is behind a lexeme counts. -/
theorem endsBefore_append {lexeme : Lexeme} {first second : List Char} (held : first ≠ []) :
    lexeme.EndsBefore (first ++ second) ↔ lexeme.EndsBefore first := by
  cases first with
  | nil => exact absurd rfl held
  | cons c more => simp [EndsBefore]

/-- A line break starts a terminator and nothing else. -/
theorem startedBy?_of_isLineBreak {c : Char} (lineBreak : isLineBreak c = true) :
    TokenKind.startedBy? c = some .terminator := by
  simp only [isLineBreak, Bool.or_eq_true, decide_eq_true_eq] at lineBreak
  rcases lineBreak with rfl | rfl <;> decide

/-- The kind that a carriage return starts is a terminator. -/
theorem eq_terminator_of_startedBy? {kind : TokenKind}
    (starts : TokenKind.startedBy? '\r' = some kind) : kind = .terminator :=
  Option.some.inj (starts.symm.trans (startedBy?_of_isLineBreak (by decide)))

/-- Unless a line feed follows a carriage return, the remainder of a token goes by its kind. -/
theorem remainder_eq {c : Char} {text : List Char} (other : ¬(c = '\r' ∧ text.head? = some '\n'))
    (kind : TokenKind) :
    kind.remainder c text =
      (text.takeWhile kind.continuesWith, text.dropWhile kind.continuesWith) := by
  unfold TokenKind.remainder
  split
  · simp at other
  · rfl

/-- A token of a kind without further characters goes on with a line feed behind a carriage
return only; all others go by their kind. -/
theorem goesOn_token (kind : TokenKind) (text : List Char) (c : Char) :
    (Lexeme.token kind text).goesOn c =
      (kind.continuesWith c || (kind == .terminator && text == ['\r'] && c == '\n')) := by
  cases kind <;> simp [goesOn, TokenKind.continuesWith]

/-- The first lexeme of a text is lawful. -/
theorem isLawful_first (c : Char) (others : List Char) : (first c others).1.isLawful = true := by
  unfold first
  split
  · rename_i kind starts
    by_cases pair : c = '\r' ∧ others.head? = some '\n'
    · obtain ⟨rfl, head⟩ := pair
      obtain ⟨rest, rfl⟩ := List.head?_eq_some_iff.mp head
      simp [TokenKind.remainder, isLawful, starts]
    · simp [remainder_eq pair, isLawful, starts]
  · rename_i strays
    simp [isLawful, strays]

/-- The first lexeme of a text is as long as can be. -/
theorem endsBefore_first (c : Char) (others : List Char) :
    (first c others).1.EndsBefore (first c others).2 := by
  unfold first
  split
  · rename_i kind starts
    intro next head
    rw [goesOn_token]
    by_cases pair : c = '\r' ∧ others.head? = some '\n'
    · obtain ⟨rfl, first⟩ := pair
      obtain ⟨rest, rfl⟩ := List.head?_eq_some_iff.mp first
      obtain rfl := eq_terminator_of_startedBy? starts
      simp [TokenKind.remainder, TokenKind.continuesWith]
    · simp only [remainder_eq pair] at head ⊢
      have stopped := List.head?_dropWhile_not kind.continuesWith others
      rw [head] at stopped
      -- A lone carriage return is left: nothing was dropped behind it, so no line feed follows.
      have alone : (kind == .terminator && c :: others.takeWhile kind.continuesWith == ['\r'] &&
          next == '\n') = false := by
        rw [Bool.eq_false_iff]
        intro wrong
        simp only [Bool.and_eq_true, beq_iff_eq] at wrong
        obtain ⟨⟨rfl, same⟩, rfl⟩ := wrong
        have none : others.dropWhile (TokenKind.continuesWith .terminator) = others := by
          cases others <;> rfl
        rw [none] at head
        exact pair ⟨(List.cons.inj same).1, head⟩
      rw [alone, stopped]
      rfl
  · intro next head
    rfl

/-- A lawful lexeme that ends before a text is the first one of the two in a row. -/
theorem first_of_isLawful {lexeme : Lexeme} {c : Char} {more rest : List Char}
    (lawful : lexeme.isLawful = true) (ends : lexeme.EndsBefore rest)
    (text : lexeme.text = c :: more) : first c (more ++ rest) = (lexeme, rest) := by
  cases lexeme with
  | stray other =>
    obtain ⟨rfl, rfl⟩ := List.cons.inj text
    simp only [isLawful, Option.isNone_iff_eq_none] at lawful
    simp [first, lawful]
  | token kind characters =>
    obtain rfl : characters = c :: more := text
    simp only [isLawful, Bool.and_eq_true, Bool.or_eq_true, beq_iff_eq] at lawful
    obtain ⟨starts, run | ⟨rfl, rfl⟩⟩ := lawful
    · have stops : rest.takeWhile kind.continuesWith = [] ∧
          rest.dropWhile kind.continuesWith = rest := by
        cases rest with
        | nil => exact ⟨rfl, rfl⟩
        | cons next behind =>
          have refused := ends next rfl
          rw [goesOn_token, Bool.or_eq_false_iff] at refused
          simp [refused.1]
      have single : ¬(c = '\r' ∧ (more ++ rest).head? = some '\n') := by
        rintro ⟨rfl, head⟩
        obtain rfl := eq_terminator_of_startedBy? starts
        cases more with
        | nil =>
          have refused := ends '\n' head
          contradiction
        | cons next behind => simp [TokenKind.continuesWith] at run
      rw [List.all_eq_true] at run
      simp only [first, starts, remainder_eq single]
      rw [List.takeWhile_append_of_pos run, List.dropWhile_append_of_pos run, stops.1, stops.2,
        List.append_nil]
    · obtain rfl := eq_terminator_of_startedBy? starts
      simp [first, starts, TokenKind.remainder]

/-- A lawful lexeme holds at least one character. -/
theorem text_ne_nil_of_isLawful {lexeme : Lexeme} (lawful : lexeme.isLawful = true) :
    lexeme.text ≠ [] := by
  cases lexeme with
  | stray c => simp [text]
  | token kind characters =>
    rintro rfl
    contradiction

/-- A lawful lexeme that ends before a text is cut off in front of it. -/
theorem ofText_append {lexeme : Lexeme} {rest : List Char} (lawful : lexeme.isLawful = true)
    (ends : lexeme.EndsBefore rest) : ofText (lexeme.text ++ rest) = lexeme :: ofText rest := by
  obtain ⟨c, more, text⟩ := List.exists_cons_of_ne_nil (text_ne_nil_of_isLawful lawful)
  rw [text, List.cons_append, ofText, first_of_isLawful lawful ends text]

/-- The text of a lawful lexeme by itself is that lexeme. -/
theorem ofText_of_isLawful {lexeme : Lexeme} (lawful : lexeme.isLawful = true) :
    ofText lexeme.text = [lexeme] := by
  have ends : lexeme.EndsBefore [] := by simp [EndsBefore]
  have cut := ofText_append lawful ends
  rwa [List.append_nil, ofText] at cut

/-- Lexemes in a row are lawful, and each ends before what is behind it. -/
def Munched : List Lexeme → Prop
  | [] => True
  | lexeme :: others =>
    lexeme.isLawful = true ∧ lexeme.EndsBefore (others.flatMap text) ∧ Munched others

instance decidableMunched : (lexemes : List Lexeme) → Decidable (Munched lexemes)
  | [] => .isTrue trivial
  | lexeme :: others =>
    have := decidableMunched others
    inferInstanceAs (Decidable (lexeme.isLawful = true ∧
      lexeme.EndsBefore (others.flatMap text) ∧ Munched others))

/-- A text is cut into lexemes by longest match. -/
theorem munched_ofText (source : List Char) : Munched (ofText source) := by
  fun_induction ofText source with
  | case1 => trivial
  | case2 c others ih =>
    refine ⟨isLawful_first c others, ?_, ih⟩
    rw [flatMap_text_ofText]
    exact endsBefore_first c others

/-- There is no other way to cut a text into lexemes by longest match. -/
theorem ofText_flatMap {lexemes : List Lexeme} (munched : Munched lexemes) :
    ofText (lexemes.flatMap text) = lexemes := by
  induction lexemes with
  | nil => simp [ofText]
  | cons lexeme others ih =>
    obtain ⟨lawful, ends, behind⟩ := munched
    rw [List.flatMap_cons, ofText_append lawful ends, ih behind]

/-- Lexemes in two rows are one row by longest match if the last of the first row ends before
the second. -/
theorem munched_append {first second : List Lexeme} (here : Munched first)
    (behind : Munched second)
    (ends : ∀ last, first.getLast? = some last → last.EndsBefore (second.flatMap text)) :
    Munched (first ++ second) := by
  induction first with
  | nil => exact behind
  | cons lexeme others ih =>
    obtain ⟨lawful, next, others_munched⟩ := here
    cases others with
    | nil => exact ⟨lawful, ends lexeme rfl, behind⟩
    | cons other more =>
      refine ⟨lawful, ?_, ih others_munched fun last same => ends last (by simpa using same)⟩
      have held : (other :: more).flatMap text ≠ [] := by
        simp [text_ne_nil_of_isLawful others_munched.1]
      change lexeme.EndsBefore ((other :: more ++ second).flatMap text)
      rw [List.flatMap_append, endsBefore_append held]
      exact next

/-- Each lexeme of a row by longest match is lawful. -/
theorem isLawful_of_mem {lexemes : List Lexeme} (munched : Munched lexemes) {lexeme : Lexeme}
    (member : lexeme ∈ lexemes) : lexeme.isLawful = true := by
  induction lexemes with
  | nil => contradiction
  | cons first others ih =>
    rcases List.mem_cons.mp member with rfl | behind
    · exact munched.1
    · exact ih munched.2.2 behind

/-- The bytes of lexemes are those of the first and those of the others. -/
theorem totalLength_cons (lexeme : Lexeme) (others : List Lexeme) :
    totalLength (lexeme :: others) = Text.byteLength lexeme.text + totalLength others := by
  simp [totalLength]

/-- The bytes of lexemes in two rows are those of both. -/
theorem totalLength_append (first second : List Lexeme) :
    totalLength (first ++ second) = totalLength first + totalLength second := by
  simp [totalLength]

/-- The tokens of two rows of lexemes are those of the first and those of the second. -/
theorem tokensFrom_append (position : Nat) (first second : List Lexeme) :
    tokensFrom position (first ++ second) =
      tokensFrom position first ++ tokensFrom (position + totalLength first) second := by
  induction first generalizing position with
  | nil => simp [tokensFrom, totalLength]
  | cons lexeme others ih =>
    rw [totalLength_cons, ← Nat.add_assoc, List.cons_append, tokensFrom, tokensFrom, ih]
    cases lexeme <;> rfl

/-- A token among lexemes is one of them, at the offset behind those in front of it. -/
theorem mem_tokensFrom_iff {position : Nat} {lexemes : List Lexeme} {token : Token} :
    token ∈ tokensFrom position lexemes ↔
      ∃ earlier later, lexemes = earlier ++ .token token.kind token.text :: later ∧
        token.position = position + totalLength earlier := by
  constructor
  · intro member
    induction lexemes generalizing position with
    | nil => contradiction
    | cons lexeme others ih =>
      have behind (there : token ∈ tokensFrom (position + Text.byteLength lexeme.text) others) :
          ∃ earlier later,
            lexeme :: others = earlier ++ .token token.kind token.text :: later ∧
            token.position = position + totalLength earlier := by
        obtain ⟨earlier, later, rfl, place⟩ := ih there
        exact ⟨lexeme :: earlier, later, rfl, by rw [place, totalLength_cons, Nat.add_assoc]⟩
      rw [tokensFrom] at member
      cases lexeme with
      | stray c => exact behind member
      | token kind characters =>
        rcases List.mem_cons.mp member with rfl | there
        · exact ⟨[], others, rfl, rfl⟩
        · exact behind there
  · rintro ⟨earlier, later, rfl, place⟩
    rw [tokensFrom_append, ← place]
    exact List.mem_append_right _ (List.mem_cons_self ..)

/-- A token among lexemes stands between the ends of the lexemes. -/
theorem position_le_of_mem_tokensFrom {position : Nat} {lexemes : List Lexeme} {token : Token}
    (member : token ∈ tokensFrom position lexemes) :
    position ≤ token.position ∧ token.stop ≤ position + totalLength lexemes := by
  obtain ⟨earlier, later, rfl, place⟩ := mem_tokensFrom_iff.mp member
  simp only [Token.stop, Token.length, totalLength, List.flatMap_append, List.flatMap_cons, text,
    Text.byteLength_append] at place ⊢
  omega

/-- Each token among lexemes ends in front of the next one. -/
theorem pairwise_tokensFrom (position : Nat) (lexemes : List Lexeme) :
    (tokensFrom position lexemes).Pairwise (·.stop ≤ ·.position) := by
  induction lexemes generalizing position with
  | nil => exact .nil
  | cons lexeme others ih =>
    cases lexeme with
    | stray c => exact ih _
    | token kind characters =>
      exact .cons (fun _ there => (position_le_of_mem_tokensFrom there).1) (ih _)

/-- A token among lexemes has the kind and the text of one of them. -/
theorem mem_of_mem_tokensFrom {position : Nat} {lexemes : List Lexeme} {token : Token}
    (member : token ∈ tokensFrom position lexemes) :
    Lexeme.token token.kind token.text ∈ lexemes := by
  obtain ⟨earlier, later, rfl, _⟩ := mem_tokensFrom_iff.mp member
  simp

end Assembly8085.Lexeme
