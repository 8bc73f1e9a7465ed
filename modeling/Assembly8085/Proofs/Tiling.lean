import Assembly8085.Proofs.Characters
import Assembly8085.Proofs.Letters
import Assembly8085.Proofs.Scan
import Assembly8085.Proofs.Slice

/-!
# Scans tile the source

The tokens that scans hand out and the stray characters that they remark on lie side by side from
the first byte of a source to the last. Which texts a token can have is said for each kind without
the scanner; a token has such a text, and no other one goes on from it. A token that is cut out is
found again if its text is scanned alone.
-/
namespace Assembly8085

/-- Whether a token of a kind starts with a character. -/
def TokenKind.startsWith : TokenKind → Char → Bool
  | .endOfFile, _ => false
  | .space, c => isBlank c
  | .terminator, c => isLineBreak c
  | .comment, c => c = ';'
  | .identifier, c => startsIdentifier c
  | .integer, c => c.isDigit
  | .delimiter, c => c = ','
  | .colon, c => c = ':'

/-- The first characters of tokens of different kinds are different. -/
theorem startedBy?_eq_some_iff {c : Char} {kind : TokenKind} :
    TokenKind.startedBy? c = some kind ↔ kind.startsWith c = true := by
  by_cases mark : c ∈ [' ', '\t', '\n', '\r', ';', ',', ':', '_', '.']
  · simp only [List.mem_cons, List.not_mem_nil, or_false] at mark
    rcases mark with rfl | rfl | rfl | rfl | rfl | rfl | rfl | rfl | rfl <;> cases kind <;> decide
  · have digit := @isDigit_of_isAlpha c
    simp only [List.mem_cons, List.not_mem_nil, or_false, not_or] at mark
    cases kind <;> simp [TokenKind.startedBy?, TokenKind.startsWith, isBlank, isLineBreak,
      startsIdentifier, mark] <;> grind

/-- The texts of tokens of a kind. -/
def TokenKind.Admits : TokenKind → List Char → Prop
  | .endOfFile, _ => False
  | .space, text => text ≠ [] ∧ ∀ c ∈ text, c = ' ' ∨ c = '\t'
  | .terminator, text => text = ['\n'] ∨ text = ['\r', '\n'] ∨ text = ['\r']
  | .comment, text => ∃ more, text = ';' :: more ∧ ∀ c ∈ more, c ≠ '\n' ∧ c ≠ '\r'
  | .identifier, text => ∃ first more, text = first :: more ∧
      (first.isAlpha ∨ first = '_' ∨ first = '.') ∧
      ∀ c ∈ more, c.isAlpha ∨ c.isDigit ∨ c = '_' ∨ c = '.'
  | .integer, text => ∃ first more, text = first :: more ∧ first.isDigit ∧
      ∀ c ∈ more, c.isAlpha ∨ c.isDigit ∨ c = '_'
  | .delimiter, text => text = [',']
  | .colon, text => text = [':']

/-- A token is lawful if its first character starts its kind and the others continue it, or if it
is a carriage return with its line feed. -/
theorem Lexeme.isLawful_cons_iff {kind : TokenKind} {c : Char} {more : List Char} :
    (Lexeme.token kind (c :: more)).isLawful = true ↔
      kind.startsWith c = true ∧
        ((∀ d ∈ more, kind.continuesWith d = true) ∨ (c = '\r' ∧ more = ['\n'])) := by
  simp [isLawful, startedBy?_eq_some_iff]

/-- Only line breaks have two ways to go on. -/
theorem Lexeme.isLawful_cons_iff_of_ne {kind : TokenKind} (other : kind ≠ .terminator) {c : Char}
    {more : List Char} :
    (Lexeme.token kind (c :: more)).isLawful = true ↔
      kind.startsWith c = true ∧ ∀ d ∈ more, kind.continuesWith d = true := by
  rw [isLawful_cons_iff]
  refine and_congr_right fun starts => or_iff_left ?_
  rintro ⟨rfl, _⟩
  exact other (eq_terminator_of_startedBy? (startedBy?_eq_some_iff.mpr starts))

/-- The texts of lawful tokens are those that their kinds admit. -/
theorem TokenKind.admits_iff_isLawful {kind : TokenKind} {text : List Char} :
    kind.Admits text ↔ (Lexeme.token kind text).isLawful = true := by
  cases text with
  | nil => cases kind <;> simp [Admits, Lexeme.isLawful]
  | cons c more =>
    by_cases terminator : kind = .terminator
    · subst terminator
      simp only [Lexeme.isLawful_cons_iff, Admits, startsWith, continuesWith, isLineBreak,
        List.cons.injEq, Bool.false_eq_true, imp_false, ← List.eq_nil_iff_forall_not_mem,
        Bool.or_eq_true, decide_eq_true_eq]
      grind
    · rw [Lexeme.isLawful_cons_iff_of_ne terminator]
      cases kind <;> simp [Admits, startsWith, continuesWith, isBlank, isLineBreak,
        startsIdentifier, Char.isAlphanum, or_assoc, and_assoc,
        ← List.eq_nil_iff_forall_not_mem] at terminator ⊢

namespace Lexeme

/-- A character with which a text goes on as one of the same kind makes the token longer. -/
theorem goesOn_of_isLawful_append {kind : TokenKind} {text more : List Char} {c : Char}
    (some : text ≠ []) (lawful : (Lexeme.token kind (text ++ c :: more)).isLawful = true) :
    (Lexeme.token kind text).goesOn c = true := by
  obtain ⟨first, others, rfl⟩ := List.exists_cons_of_ne_nil some
  rw [List.cons_append, isLawful_cons_iff] at lawful
  rw [goesOn_token, Bool.or_eq_true]
  obtain ⟨starts, run | ⟨rfl, pair⟩⟩ := lawful
  · exact .inl (run c (by simp))
  · obtain rfl := eq_terminator_of_startedBy? (startedBy?_eq_some_iff.mpr starts)
    obtain ⟨rfl, rfl⟩ : others = [] ∧ c = '\n' := by
      cases others with
      | nil => exact ⟨rfl, (List.cons.inj pair).1⟩
      | cons next rest => simp at pair
    exact .inr (by decide)

/-- The spans of lexemes in order, those of tokens on the left. -/
def pieces (position : Nat) : List Lexeme → List (Span ⊕ Span)
  | [] => []
  | lexeme :: ahead =>
    let span : Span := ⟨position, Text.byteLength lexeme.text⟩
    (if lexeme.kind?.isSome then .inl span else .inr span) :: pieces span.stop ahead

/-- The span of a piece, of whichever kind it is. -/
abbrev pieceSpan (piece : Span ⊕ Span) : Span := piece.elim id id

/-- The pieces on the left are the tokens. -/
theorem filterMap_getLeft?_pieces (position : Nat) (lexemes : List Lexeme) :
    (pieces position lexemes).filterMap Sum.getLeft? =
      (tokensFrom position lexemes).map Token.span := by
  induction lexemes generalizing position with
  | nil => rfl
  | cons lexeme others ih =>
    rw [pieces, tokensFrom]
    cases lexeme with
    | stray c => exact ih _
    | token kind text => exact congrArg (_ :: ·) (ih _)

/-- Lexemes lie side by side. -/
theorem tiles_pieces (position : Nat) {lexemes : List Lexeme}
    (lawful : ∀ lexeme ∈ lexemes, lexeme.isLawful = true) :
    Tiles position (position + totalLength lexemes) ((pieces position lexemes).map pieceSpan) := by
  induction lexemes generalizing position with
  | nil => rfl
  | cons lexeme others ih =>
    have held := Text.byteLength_pos
      (text_ne_nil_of_isLawful (lawful lexeme (List.mem_cons_self ..)))
    have later := ih (position + Text.byteLength lexeme.text)
      fun other member => lawful other (List.mem_cons_of_mem _ member)
    rw [Nat.add_assoc, ← totalLength_cons] at later
    rw [pieces, List.map_cons]
    split <;> exact ⟨rfl, held, later⟩

/-- The slices of lexemes are their texts. -/
theorem mapM_slice?_pieces (before : List Char) (lexemes : List Lexeme) :
    ((pieces (Text.byteLength before) lexemes).map pieceSpan).mapM
        (Span.slice? (before ++ lexemes.flatMap text)) = some (lexemes.map text) := by
  induction lexemes generalizing before with
  | nil => rfl
  | cons lexeme others ih =>
    have here : Span.slice? (before ++ (lexeme :: others).flatMap text)
        ⟨Text.byteLength before, Text.byteLength lexeme.text⟩ = some lexeme.text :=
      Text.slice?_eq_some_iff.mpr ⟨before, others.flatMap text, by simp, rfl, rfl⟩
    have later := ih (before ++ lexeme.text)
    rw [Text.byteLength_append, List.append_assoc, ← List.flatMap_cons] at later
    rw [pieces, List.map_cons, List.mapM_cons]
    have same : pieceSpan (if lexeme.kind?.isSome then
        .inl ⟨Text.byteLength before, Text.byteLength lexeme.text⟩
        else .inr ⟨Text.byteLength before, Text.byteLength lexeme.text⟩) =
        ⟨Text.byteLength before, Text.byteLength lexeme.text⟩ := by
      split <;> rfl
    rw [same, here]
    simp only [Span.stop, later]
    rfl

/-- A stray character is what is remarked on as one. -/
theorem notice?_eq_unexpectedCharacter_iff {lexeme : Lexeme} {c : Char} :
    lexeme.notice? = some (.unexpectedCharacter c) ↔ lexeme = .stray c := by
  simp [notice?_eq_some_iff]

end Lexeme

/-- The span of a diagnostic about a stray character. -/
def Diagnostic.straySpan? : Diagnostic → Option Span
  | ⟨.unexpectedCharacter _, some location⟩ => some location.span
  | _ => none

/-- The pieces on the right are the stray characters remarked on. -/
theorem Lexeme.filterMap_getRight?_pieces (file : String) (position : Nat)
    (lexemes : List Lexeme) :
    (pieces position lexemes).filterMap Sum.getRight? =
      (remarksFrom position lexemes).filterMap fun remark =>
        (remark.inFile file).straySpan? := by
  induction lexemes generalizing position with
  | nil => rfl
  | cons lexeme others ih =>
    rw [pieces, remarksFrom, List.filterMap_append]
    cases lexeme with
    | stray c => exact congrArg (_ :: ·) (ih _)
    | token kind text =>
      have silent : (remarksAt position (Text.byteLength text)
          (Lexeme.token kind text).notice?).filterMap
            (fun remark => (remark.inFile file).straySpan?) = [] := by
        cases noticed : (Lexeme.token kind text).notice? with
        | none => rfl
        | some notice =>
          cases notice with
          | unexpectedCharacter c =>
            have wrong := notice?_eq_unexpectedCharacter_iff.mp noticed
            contradiction
          | _ => rfl
      rw [show (Lexeme.token kind text).text = text from rfl, silent]
      exact ih _

/-- A token of a source has a text of its kind, which stands in the source at the offset of the
token, and no text of its kind goes on from it there. -/
theorem Lexeme.maximal_of_mem_tokensFrom {source : List Char} {token : Token}
    (member : token ∈ tokensFrom 0 (ofText source)) :
    token.kind.Admits token.text ∧
      ∃ before behind, source = before ++ token.text ++ behind ∧
        Text.byteLength before = token.position ∧
        ∀ more, more ≠ [] → more <+: behind → ¬ token.kind.Admits (token.text ++ more) := by
  obtain ⟨earlier, later, cut, place⟩ := mem_tokensFrom_iff.mp member
  have munched := munched_ofText source
  have whole := flatMap_text_ofText source
  rw [cut] at munched whole
  obtain ⟨lawful, ends, _⟩ := Munched.of_append munched
  refine ⟨TokenKind.admits_iff_isLawful.mpr lawful, earlier.flatMap text, later.flatMap text, ?_,
    by rw [place, Nat.zero_add, totalLength], ?_⟩
  · rw [← whole]
    simp [text]
  · rintro more some ⟨rest, same⟩ longer
    obtain ⟨c, others, rfl⟩ := List.exists_cons_of_ne_nil some
    have refused := ends c (by rw [← same]; rfl)
    have held : token.text ≠ [] := text_ne_nil_of_isLawful lawful
    rw [goesOn_of_isLawful_append held (TokenKind.admits_iff_isLawful.mp longer)] at refused
    contradiction

/-- The text of a lawful token is scanned as that token alone. -/
theorem scanAll_text (file : String) {kind : TokenKind} {text : List Char}
    (lawful : (Lexeme.token kind text).isLawful = true) :
    ((Session.ofSource file text .debug).scanAll).1 =
      ([Token.scanned ⟨kind, text, 0⟩], none) := by
  have alone : Lexeme.ofText text = [.token kind text] := Lexeme.ofText_of_isLawful lawful
  rw [(scanAll_ofSource file text).1, alone]
  rfl

/-- A stray character that is remarked on stands at the place of the remark, and no token starts
with it. -/
theorem Lexeme.slice?_of_mem_remarksFrom {source : List Char} {remark : Remark} {c : Char}
    (member : remark ∈ remarksFrom 0 (ofText source))
    (stray : remark.notice = .unexpectedCharacter c) :
    Span.slice? source ⟨remark.position, remark.length⟩ = some [c] ∧
      ∀ kind more, ¬ TokenKind.Admits kind (c :: more) := by
  obtain ⟨earlier, lexeme, later, cut, noticed, place, length⟩ := mem_remarksFrom_iff.mp member
  rw [stray] at noticed
  obtain rfl := notice?_eq_unexpectedCharacter_iff.mp noticed
  have munched := munched_ofText source
  have whole := flatMap_text_ofText source
  rw [cut] at munched whole
  have lawful : (Lexeme.stray c).isLawful = true := (Munched.of_append munched).1
  refine ⟨Text.slice?_eq_some_iff.mpr ⟨earlier.flatMap text, later.flatMap text, ?_, ?_, ?_⟩, ?_⟩
  · rw [← whole]
    simp [text]
  · rw [place, Nat.zero_add, totalLength]
  · rw [Span.stop, length]
    rfl
  · intro kind more admits
    have starts := (isLawful_cons_iff.mp (TokenKind.admits_iff_isLawful.mp admits)).1
    simp [isLawful, startedBy?_eq_some_iff.mpr starts] at lawful

/-- The pieces of a source on the right are the stray characters that scans remark on. -/
theorem filterMap_straySpan?_scanAll (file : String) (source : List Char) :
    ((Session.ofSource file source .debug).scanAll).2.diagnostics.toList.filterMap
        Diagnostic.straySpan? =
      (Lexeme.pieces 0 (Lexeme.ofText source)).filterMap Sum.getRight? := by
  have final : (remarksAt (Text.byteLength source) 0
      (if isUnended source then some .expectedFinalNewline else none)).filterMap
        (fun remark => (remark.inFile file).straySpan?) = [] := by
    split <;> rfl
  rw [(scanAll_ofSource file source).2.2, Lexeme.filterMap_getRight?_pieces file,
    List.filterMap_map, List.filterMap_append]
  exact (congrArg (_ ++ ·) final).trans (List.append_nil _)

/-- A stray character that scans remark on stands at the place of the remark, and no token starts
with it. -/
theorem slice?_of_mem_diagnostics_scanAll {file : String} {source : List Char}
    {diagnostic : Diagnostic} {c : Char}
    (member : diagnostic ∈ ((Session.ofSource file source .debug).scanAll).2.diagnostics)
    (stray : diagnostic.notice = .unexpectedCharacter c) :
    ∃ location, diagnostic.location = some location ∧
      location.span.slice? source = some [c] ∧
        ∀ kind more, ¬ TokenKind.Admits kind (c :: more) := by
  rw [← Array.mem_toList_iff, (scanAll_ofSource file source).2.2] at member
  obtain ⟨remark, there, rfl⟩ := List.mem_map.mp member
  rcases List.mem_append.mp there with here | final
  · exact ⟨_, rfl, Lexeme.slice?_of_mem_remarksFrom here stray⟩
  · obtain ⟨notice, noticed, rfl⟩ := List.mem_map.mp final
    rw [Option.mem_toList] at noticed
    split at noticed
    · simp [← Option.some.inj noticed, Remark.inFile] at stray
    · contradiction

/-- Scans of a source up to its end hand out tokens that lie side by side with the stray characters
remarked on, from the first byte to the last. Each token has a text of its kind, as long as can be,
which scanned alone is that token again; no token starts with a stray character. -/
theorem scanAll_tiles (file : String) (source : List Char) :
    let run := (Session.ofSource file source .debug).scanAll
    run.1.2 = none ∧ run.2.currentToken = ⟨.endOfFile, [], Text.byteLength source⟩ ∧
    (∃ pieces : List (Span ⊕ Span),
      pieces.filterMap Sum.getLeft? = run.1.1.map (·.token.span) ∧
      pieces.filterMap Sum.getRight? =
        run.2.diagnostics.toList.filterMap Diagnostic.straySpan? ∧
      Tiles 0 (Text.byteLength source) (pieces.map (·.elim id id)) ∧
      ∃ slices, (pieces.map (·.elim id id)).mapM (Span.slice? source) = some slices ∧
        slices.flatten = source) ∧
    (∀ scanned ∈ run.1.1,
      scanned.token.kind.Admits scanned.token.text ∧
      (∃ before behind, source = before ++ scanned.token.text ++ behind ∧
        Text.byteLength before = scanned.token.position ∧
        ∀ more, more ≠ [] → more <+: behind →
          ¬ scanned.token.kind.Admits (scanned.token.text ++ more)) ∧
      ∀ other : String, ((Session.ofSource other scanned.token.text .debug).scanAll).1 =
        ([{ scanned with token := { scanned.token with position := 0 } }], none)) ∧
    ∀ diagnostic ∈ run.2.diagnostics, ∀ c, diagnostic.notice = .unexpectedCharacter c →
      ∃ location, diagnostic.location = some location ∧
        location.span.slice? source = some [c] ∧
          ∀ kind more, ¬ TokenKind.Admits kind (c :: more) := by
  obtain ⟨tokens, last, _⟩ := scanAll_ofSource file source
  have munched := Lexeme.munched_ofText source
  have whole := Lexeme.flatMap_text_ofText source
  have lawful : ∀ lexeme ∈ Lexeme.ofText source, lexeme.isLawful = true := fun _ member =>
    Lexeme.isLawful_of_mem munched member
  have tiles := Lexeme.tiles_pieces 0 lawful
  have slices := Lexeme.mapM_slice?_pieces [] (Lexeme.ofText source)
  rw [Lexeme.totalLength_ofText, Nat.zero_add] at tiles
  rw [List.nil_append, whole] at slices
  refine ⟨congrArg Prod.snd tokens, last,
    ⟨Lexeme.pieces 0 (Lexeme.ofText source), ?_, (filterMap_straySpan?_scanAll file source).symm,
      tiles, _, slices, ?_⟩, ?_, fun _ member _ => slice?_of_mem_diagnostics_scanAll member⟩
  · rw [tokens, Lexeme.filterMap_getLeft?_pieces, List.map_map]
    rfl
  · rw [← List.flatMap_def, whole]
  · intro scanned member
    rw [tokens] at member
    obtain ⟨token, there, rfl⟩ := List.mem_map.mp member
    obtain ⟨admits, longest⟩ := Lexeme.maximal_of_mem_tokensFrom there
    exact ⟨admits, longest, fun other =>
      scanAll_text other (TokenKind.admits_iff_isLawful.mp admits)⟩

end Assembly8085
