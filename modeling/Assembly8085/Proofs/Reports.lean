import Assembly8085.Proofs.Layout

/-!
# Reports

What is told of a source is in its order. What is wrong with a lexeme by itself is told before that
its token is out of order, and nothing else is told twice of one place. A token that is out of
order is told with its kind, and once on each line: the rest of its line is discarded.
-/
namespace Assembly8085

namespace Notice

/-- Whether a notice is about a lexeme by itself, or about the last line. -/
def isScanning : Notice → Bool
  | .expectedLineFeed | .expectedFinalNewline | .unexpectedCharacter _ | .malformedInteger _ => true
  | _ => false

/-- A notice says that a token of a kind is out of order where such tokens can be. -/
inductive Refuses : Notice → TokenKind → Prop
  /-- Trivia, an identifier and the end of the source may follow a statement. -/
  | statement {kind : TokenKind} (other : kind ∈ [.integer, .delimiter, .colon]) :
    Refuses (.expectedStatement kind) kind
  /-- Trivia, a comma and the end of the source may follow an operand. -/
  | terminator {kind : TokenKind} (other : kind ∈ [.identifier, .integer, .colon]) :
    Refuses (.expectedTerminator kind) kind
  /-- Space, a name and a number may follow a comma. -/
  | expression {kind : TokenKind}
    (other : kind ∈ [.delimiter, .colon, .comment, .terminator, .endOfFile]) :
    Refuses (.expectedExpression kind) kind

/-- No notice is both about a lexeme by itself and about the order of tokens. -/
theorem isScanning_eq_false {notice : Notice} (parsing : notice.isParsing = true) :
    notice.isScanning = false := by
  cases notice <;> first | rfl | contradiction

end Notice

/-- What a lexeme alone gives rise to say is about it by itself. -/
theorem Lexeme.isScanning_of_notice? {lexeme : Lexeme} {notice : Notice}
    (noticed : lexeme.notice? = some notice) : notice.isScanning = true := by
  rcases notice?_eq_some_iff.mp noticed with ⟨_, _, rfl⟩ | ⟨_, rfl⟩ | ⟨_, _, _, rfl⟩ <;> rfl

/-- The note about the last line is not about the order of tokens. -/
theorem isScanning_expectedFinalNewline (unended : Bool) {notice : Notice}
    (noted : (if unended then some Notice.expectedFinalNewline else none) = some notice) :
    notice.isScanning = true := by
  cases unended with
  | true =>
    obtain rfl := Option.some.inj noted
    rfl
  | false => contradiction

/-- A remark on a stretch is one for its notice. -/
theorem mem_remarksAt_iff {remark : Remark} {position length : Nat} {notice : Option Notice} :
    remark ∈ remarksAt position length notice ↔
      notice = some remark.notice ∧ remark.span = ⟨position, length⟩ := by
  cases notice with
  | none => simp [remarksAt]
  | some notice =>
    cases remark
    simp [remarksAt, Remark.span, eq_comm]

namespace Remark

/-- One remark comes before another one if it is about an earlier place or, at the same place, it is
about a lexeme by itself and the other one is about the order of tokens. -/
def Before (first second : Remark) : Prop :=
  first.position < second.position ∨
    (first.position = second.position ∧
      first.notice.isScanning = true ∧ second.notice.isParsing = true)

/-- Where two remarks on one place are followed by remarks on later places, all are in order. -/
theorem pairwise_before (position length : Nat) {own order : Option Notice}
    (scanning : ∀ {notice}, own = some notice → notice.isScanning = true)
    (parsing : ∀ {notice}, order = some notice → notice.isParsing = true) {rest : List Remark}
    (behind : ∀ remark ∈ rest, position < remark.position) (inOrder : rest.Pairwise Before) :
    (remarksAt position length own ++
      (remarksAt position length order ++ rest)).Pairwise Before := by
  have later {notice : Notice} {remark : Remark} (member : remark ∈ rest) :
      Before ⟨notice, position, length⟩ remark := .inl (behind remark member)
  have second : (remarksAt position length order ++ rest).Pairwise Before := by
    cases order with
    | none => exact inOrder
    | some notice => exact .cons (fun remark member => later member) inOrder
  cases own with
  | none => exact second
  | some notice =>
    refine .cons (fun remark member => ?_) second
    have member : remark ∈ remarksAt position length order ++ rest := member
    rcases List.mem_append.mp member with same | other
    · obtain ⟨told, place⟩ := mem_remarksAt_iff.mp same
      exact .inr ⟨(congrArg Span.position place).symm, scanning rfl, parsing told⟩
    · exact later other

/-- Of remarks in order, at most two are about one place: first one about a lexeme by itself and
then one about the order of tokens. -/
theorem shared_of_pairwise_before {remarks : List Remark} (inOrder : remarks.Pairwise Before)
    (offset : Nat) :
    (remarks.filter (·.position = offset)).length ≤ 2 ∧
      ∀ first second, remarks.filter (·.position = offset) = [first, second] →
        first.notice.isScanning = true ∧ second.notice.isParsing = true := by
  have here := inOrder.filter (·.position = offset)
  have place (remark : Remark) (member : remark ∈ remarks.filter (·.position = offset)) :
      remark.position = offset := by simpa using (List.mem_filter.mp member).2
  generalize remarks.filter (·.position = offset) = sharing at here place
  have kinds {first second : Remark} {others : List Remark}
      (whole : (first :: second :: others).Pairwise Before)
      (same : first.position = second.position) :
      first.notice.isScanning = true ∧ second.notice.isParsing = true := by
    rcases (List.pairwise_cons.mp whole).1 second (List.mem_cons_self ..) with before | shared
    · omega
    · exact shared.2
  match sharing with
  | [] => simp
  | [_] => simp
  | [first, second] =>
    refine ⟨Nat.le_refl 2, fun one other pair => ?_⟩
    obtain ⟨rfl, rfl⟩ : first = one ∧ second = other := by simpa using pair
    exact kinds here ((place first (by simp)).trans (place second (by simp)).symm)
  | first :: second :: third :: others =>
    have parsing :=
      (kinds here ((place first (by simp)).trans (place second (by simp)).symm)).2
    have scanning :=
      (kinds here.tail ((place second (by simp)).trans (place third (by simp)).symm)).1
    rw [Notice.isScanning_eq_false parsing] at scanning
    contradiction

end Remark

/-- Between two places, or at the first of them, a line ends. -/
def LineEndsBetween (tokens : List Token) (first second : Nat) : Prop :=
  ∃ terminator ∈ tokens, terminator.kind = .terminator ∧
    first ≤ terminator.position ∧ terminator.position < second

/-- A line that ends among tokens ends among more tokens. -/
theorem LineEndsBetween.mono {tokens others : List Token} {first second : Nat}
    (ends : LineEndsBetween tokens first second) (among : tokens ⊆ others) :
    LineEndsBetween others first second := by
  obtain ⟨terminator, member, facts⟩ := ends
  exact ⟨terminator, among member, facts⟩

namespace Reading

/-- The remarks on lexemes and on the end behind them are on the stretch of the lexemes. -/
theorem within_of_mem_remarksToEnd {reading : Reading} {position : Nat} {unended : Bool}
    {lexemes : List Lexeme} {remark : Remark}
    (member : remark ∈ reading.remarksToEnd position unended lexemes) :
    position ≤ remark.position ∧
      remark.position + remark.length ≤ position + Lexeme.totalLength lexemes := by
  have here {length : Nat} {notice : Option Notice} {offset : Nat}
      (same : remark ∈ remarksAt offset length notice) :
      remark.position = offset ∧ remark.length = length := by
    obtain ⟨_, place⟩ := mem_remarksAt_iff.mp same
    exact Span.mk.inj place
  induction lexemes generalizing reading position with
  | nil =>
    rw [remarksToEnd_nil, lastRemarks, List.mem_append] at member
    rcases member with same | same <;>
      · obtain ⟨place, length⟩ := here same
        omega
  | cons lexeme others ih =>
    rw [Lexeme.totalLength_cons]
    cases lexeme with
    | stray c =>
      have text : Text.byteLength (Lexeme.stray c).text = c.utf8Size := by simp [Lexeme.text]
      rw [remarksToEnd_stray] at member
      rcases List.mem_append.mp member with same | behind
      · obtain ⟨place, length⟩ := here same
        omega
      · have inside := ih behind
        omega
    | token kind text =>
      have whole : Text.byteLength (Lexeme.token kind text).text = Text.byteLength text := rfl
      rw [remarksToEnd_token] at member
      rcases List.mem_append.mp member with own | member
      · obtain ⟨place, length⟩ := here own
        omega
      · rcases List.mem_append.mp member with order | behind
        · obtain ⟨place, length⟩ := here order
          omega
        · have inside := ih behind
          omega

/-- The remarks on lexemes and on the end behind them are in order. -/
theorem pairwise_before_remarksToEnd (reading : Reading) (position : Nat) (unended : Bool)
    {lexemes : List Lexeme} (lawful : ∀ lexeme ∈ lexemes, lexeme.isLawful = true) :
    (reading.remarksToEnd position unended lexemes).Pairwise Remark.Before := by
  induction lexemes generalizing reading position with
  | nil =>
    have last := Remark.pairwise_before position 0 (isScanning_expectedFinalNewline unended)
      reading.isParsing_finish (List.forall_mem_nil _) .nil
    rw [remarksToEnd_nil, lastRemarks]
    rwa [List.append_nil] at last
  | cons lexeme others ih =>
    have inOrder (next : Reading) (offset : Nat) :=
      ih next offset fun other member => lawful other (List.mem_cons_of_mem _ member)
    have held := Text.byteLength_pos
      (Lexeme.text_ne_nil_of_isLawful (lawful lexeme (List.mem_cons_self ..)))
    have behind (next : Reading) (remark : Remark)
        (member : remark ∈ next.remarksToEnd (position + Text.byteLength lexeme.text) unended
          others) : position < remark.position := by
      have inside := (within_of_mem_remarksToEnd member).1
      omega
    cases lexeme with
    | stray c =>
      rw [remarksToEnd_stray]
      have text : Text.byteLength (Lexeme.stray c).text = c.utf8Size := by simp [Lexeme.text]
      rw [text] at behind
      have none {notice : Notice} (noticed : (none : Option Notice) = some notice) :
          notice.isParsing = true := absurd noticed.symm (Option.some_ne_none notice)
      exact Remark.pairwise_before position c.utf8Size
        (Lexeme.stray c).isScanning_of_notice? none (behind reading) (inOrder _ _)
    | token kind text =>
      rw [remarksToEnd_token]
      exact Remark.pairwise_before position _ Lexeme.isScanning_of_notice?
        (reading.isParsing_step _) (behind _) (inOrder _ _)

/-- A token that is out of order is refused for its kind. -/
theorem refuses_step {reading : Reading} {token : Token} {notice : Notice}
    (ends : ∀ draft, reading = .afterComment draft → token.kind = .terminator)
    (inside : token.kind ≠ .endOfFile) (noticed : (reading.step token).notice = some notice) :
    notice.Refuses token.kind := by
  cases reading <;> cases kind : token.kind <;>
    simp only [step, kind, Step.onward, Step.complete, Step.refuse, TokenKind.isTrivia,
      reduceCtorEq, if_true, if_false, Bool.false_eq_true, Option.some.injEq] at noticed
  case betweenStatements.endOfFile | afterTarget.endOfFile | afterOperand.endOfFile |
      afterDelimiter.endOfFile =>
    exact absurd kind inside
  case betweenStatements.integer | betweenStatements.delimiter | betweenStatements.colon =>
    exact noticed ▸ .statement (by decide)
  case afterOperand.identifier | afterOperand.integer | afterOperand.colon =>
    exact noticed ▸ .terminator (by decide)
  case afterTarget.delimiter | afterDelimiter.comment | afterDelimiter.terminator |
      afterDelimiter.delimiter | afterDelimiter.colon =>
    exact noticed ▸ .expression (by decide)
  all_goals exact TokenKind.noConfusion (kind.symm.trans (ends _ rfl))

/-- Where something is missing at the end of the source, it is an operand. -/
theorem refuses_finish {reading : Reading} {notice : Notice}
    (noticed : reading.finish.notice = some notice) : notice.Refuses .endOfFile := by
  cases reading with
  | afterDelimiter draft =>
    obtain rfl := Option.some.inj noticed
    exact .expression (by decide)
  | _ => contradiction

/-- A reading stands behind a comment right behind the comment only. -/
theorem kind_of_afterComment {reading : Reading} {token : Token} {draft : Draft}
    (ends : ∀ draft, reading = .afterComment draft → token.kind = .terminator)
    (behind : (reading.step token).reading = .afterComment draft) : token.kind = .comment := by
  by_contra other
  apply step_ne_afterComment _ other draft behind
  rintro before rfl
  rw [step_terminator _ (ends before rfl)] at behind
  contradiction

/-- A remark about the order of tokens among lexemes is on a token, or on the end behind them, and
refuses it for its kind. -/
theorem exists_refused_of_mem {reading : Reading} {position : Nat} {unended : Bool}
    {lexemes : List Lexeme} (munched : Lexeme.Munched lexemes)
    (ends : ∀ draft, reading = .afterComment draft →
      ∀ token, (Lexeme.tokensFrom position lexemes).head? = some token →
        token.kind = .terminator)
    {remark : Remark} (member : remark ∈ reading.remarksToEnd position unended lexemes)
    (parsing : remark.notice.isParsing = true) :
    ∃ token ∈ Lexeme.tokensFrom position lexemes ++
        [⟨.endOfFile, [], position + Lexeme.totalLength lexemes⟩],
      remark.span = token.span ∧ remark.notice.Refuses token.kind := by
  induction lexemes generalizing reading position with
  | nil =>
    rw [remarksToEnd_nil, lastRemarks, List.mem_append, mem_remarksAt_iff, mem_remarksAt_iff]
      at member
    rcases member with ⟨final, _⟩ | ⟨missing, place⟩
    · rw [isParsing_expectedFinalNewline unended final] at parsing
      contradiction
    · exact ⟨_, List.mem_singleton_self _, place, refuses_finish missing⟩
  | cons lexeme others ih =>
    have single (told : lexeme.notice? = some remark.notice) : False := by
      rw [Lexeme.isParsing_of_notice? told] at parsing
      contradiction
    rw [Lexeme.totalLength_cons, ← Nat.add_assoc]
    cases lexeme with
    | stray c =>
      rw [remarksToEnd_stray, List.mem_append, mem_remarksAt_iff] at member
      rcases member with ⟨told, _⟩ | behind
      · exact (single told).elim
      · exact ih munched.2.2 ends behind
    | token kind text =>
      let token : Token := ⟨kind, text, position⟩
      have mark (draft : Draft) (comment : reading = .afterComment draft) :
          token.kind = .terminator := ends draft comment token rfl
      rw [remarksToEnd_token, List.mem_append, List.mem_append, mem_remarksAt_iff,
        mem_remarksAt_iff] at member
      rcases member with ⟨told, _⟩ | ⟨refused, place⟩ | behind
      · exact (single told).elim
      · exact ⟨token, List.mem_cons_self .., place,
          refuses_step mark (Lexeme.kind_ne_endOfFile munched.1) refused⟩
      · -- Only a comment takes the reading behind a comment, and a line end is next then.
        have chain := Lexeme.commentsEndLines_tokensFrom munched position
        obtain ⟨found, among, refuses⟩ := ih munched.2.2
          (fun draft comment next head =>
            chain.rel_head? head (kind_of_afterComment mark comment)) behind
        exact ⟨found, List.mem_cons_of_mem _ among, refuses⟩

/-- While a line is discarded, a token is out of order behind the end of the line only. -/
theorem exists_terminator_of_mem_refused {reading : Reading}
    (discards : reading.isDiscarding = true) {last : Token} {tokens : List Token}
    (ordered : (tokens ++ [last]).Pairwise (·.position < ·.position)) {token : Token}
    (member : token ∈ reading.refused last tokens) :
    ∃ terminator ∈ tokens, terminator.kind = .terminator ∧
      terminator.position < token.position := by
  obtain ⟨draft, rfl⟩ : ∃ draft, reading = .discarding draft := by
    cases reading <;> first | contradiction | exact ⟨_, rfl⟩
  induction tokens with
  | nil => contradiction
  | cons first others ih =>
    obtain ⟨apart, behind⟩ := List.pairwise_cons.mp ordered
    by_cases mark : first.kind = .terminator
    · have step : (discarding draft).step first =
          ⟨.betweenStatements, draft.map Draft.keep, none⟩ := by
        simp only [Reading.step, mark]
      rw [refused, step] at member
      exact ⟨first, List.mem_cons_self .., mark, apart token (refused_subset _ _ _ member)⟩
    · have step : (discarding draft).step first = .onward (.discarding draft) := by
        cases kind : first.kind <;> first | contradiction | simp only [Reading.step, kind]
      rw [refused, step] at member
      obtain ⟨terminator, among, facts⟩ := ih behind member
      exact ⟨terminator, List.mem_cons_of_mem _ among, facts⟩

/-- Between two tokens that are out of order a line ends. -/
theorem pairwise_refused (reading : Reading) {last : Token} {tokens : List Token}
    (ordered : (tokens ++ [last]).Pairwise (·.position < ·.position)) :
    (reading.refused last tokens).Pairwise fun first second =>
      LineEndsBetween tokens first.position second.position := by
  induction tokens generalizing reading with
  | nil =>
    rw [refused]
    split
    · exact List.pairwise_singleton ..
    · exact .nil
  | cons token others ih =>
    obtain ⟨apart, behind⟩ := List.pairwise_cons.mp ordered
    have later := (ih (reading.step token).reading behind).imp
      fun ends => ends.mono (List.subset_cons_self token others)
    rw [refused]
    split
    · rename_i noticed
      refine .cons (fun next member => ?_) later
      by_cases mark : token.kind = .terminator
      · exact ⟨token, List.mem_cons_self .., mark, Nat.le_refl _,
          apart next (refused_subset _ _ _ member)⟩
      · have discards : (reading.step token).reading.isDiscarding = true := by
          rw [isDiscarding_step, noticed]
          simp [mark]
        obtain ⟨terminator, among, kind, before⟩ :=
          exists_terminator_of_mem_refused discards behind member
        have reached := apart terminator (List.mem_append_left _ among)
        exact ⟨terminator, List.mem_cons_of_mem _ among, kind, Nat.le_of_lt reached, before⟩
    · exact later

end Reading

/-- Remarks are told in the order of a source with given tokens and so many bytes. -/
structure Remark.Reports (tokens : List Token) (stop : Nat) (remarks : List Remark) : Prop where
  /-- Each remark is on a stretch of the source. -/
  within : ∀ remark ∈ remarks, remark.position + remark.length ≤ stop
  /-- No remark is on an earlier place than the one before it. -/
  ordered : remarks.Pairwise (·.position ≤ ·.position)
  /-- An error in the order of tokens is on one token, or on the end of the source, and names its
  kind. -/
  refused : ∀ remark ∈ remarks, remark.notice.isParsing = true →
    ∃ token ∈ tokens, remark.span = token.span ∧ remark.notice.Refuses token.kind
  /-- Between two such errors a line ends. -/
  apart : (remarks.filter (·.notice.isParsing)).Pairwise fun first second =>
    LineEndsBetween tokens first.position second.position
  /-- At most two remarks are on one place: one on a lexeme by itself or on the last line, and then
  one on the order of tokens. -/
  shared : ∀ offset, (remarks.filter (·.position = offset)).length ≤ 2 ∧
    ∀ first second, remarks.filter (·.position = offset) = [first, second] →
      first.notice.isScanning = true ∧ second.notice.isParsing = true

/-- Between two remarks on a source about the order of tokens a line ends. -/
theorem pairwise_filter_isParsing_remarksOn (file : String) (source : List Char) :
    ((remarksOn source).filter (·.notice.isParsing)).Pairwise fun first second =>
      LineEndsBetween (surfacedTokens file source) first.position second.position := by
  have positions := pairwise_position_surfacedTokens file source
  rw [surfacedTokens_eq, List.pairwise_map] at positions
  have apart := (Reading.betweenStatements.pairwise_refused positions).imp
    fun ends => ends.mono (List.subset_append_left _
      [(⟨.endOfFile, [], Text.byteLength source⟩ : Token)])
  have spans : (((remarksOn source).filter (·.notice.isParsing)).map Remark.span).Pairwise
      fun first second =>
        LineEndsBetween (surfacedTokens file source) first.position second.position := by
    rw [span_filter_isParsing_remarksOn, surfacedTokens_eq, List.pairwise_map]
    exact apart
  rw [List.pairwise_map] at spans
  exact spans

/-- The diagnostics of a source are told in its order, on its tokens, and at most one error in the
order of tokens on each line. -/
theorem reports_parseSource (file : String) (source : List Char) :
    ∃ remarks : List Remark,
      (parseSource file source .debug).2.diagnostics.toList = remarks.map (·.inFile file) ∧
      Remark.Reports (surfacedTokens file source) (Text.byteLength source) remarks := by
  have munched := Lexeme.munched_ofText source
  have inOrder := Reading.betweenStatements.pairwise_before_remarksToEnd 0 (isUnended source)
    fun lexeme member => Lexeme.isLawful_of_mem munched member
  refine ⟨remarksOn source, diagnostics_parseSource file source, ?_, ?_, ?_, ?_, ?_⟩
  · intro remark member
    have inside := (Reading.within_of_mem_remarksToEnd member).2
    rwa [Nat.zero_add, Lexeme.totalLength_ofText] at inside
  · refine inOrder.imp fun {first second} before => ?_
    rcases before with earlier | ⟨same, _⟩
    · exact Nat.le_of_lt earlier
    · exact Nat.le_of_eq same
  · intro remark member parsing
    have free (draft : Draft) (behind : Reading.betweenStatements = .afterComment draft) (token)
        (_ : (Lexeme.tokensFrom 0 (Lexeme.ofText source)).head? = some token) :
        token.kind = .terminator := nomatch behind
    have found := Reading.exists_refused_of_mem munched free member parsing
    rwa [Nat.zero_add, Lexeme.totalLength_ofText, ← surfacedTokens_eq file] at found
  · exact pairwise_filter_isParsing_remarksOn file source
  · exact Remark.shared_of_pairwise_before inOrder

end Assembly8085
