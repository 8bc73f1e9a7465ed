import Mathlib.Data.List.Destutter
import Assembly8085.Proofs.Composition
import Assembly8085.Proofs.Leaves
import Assembly8085.Proofs.Term

/-!
# Layout

Space and comments do not matter to what is read, and of line ends in a row only one does. What is
left of the tokens without them, wherever they stand, determines the nodes of the tree and what was
expected where a token is out of order.
-/
namespace Assembly8085

/-- What belongs in the place of a token that is out of order. -/
inductive Expectation
  /-- A statement. -/
  | statement
  /-- An operand. -/
  | expression
  /-- The end of the line of an instruction. -/
  | terminator
  deriving DecidableEq

/-- What a notice says to be missing, if it is about the order of tokens. -/
def Notice.expectation? : Notice → Option Expectation
  | .expectedStatement _ => some .statement
  | .expectedExpression _ => some .expression
  | .expectedTerminator _ => some .terminator
  | _ => none

/-- A notice that is not about the order of tokens says nothing to be missing. -/
theorem Notice.expectation?_eq_none {notice : Notice} (single : notice.isParsing = false) :
    notice.expectation? = none := by
  cases notice <;> first | rfl | contradiction

namespace Token

/-- The kind of a token, and its text if it is a name or a number. -/
def sign (token : Token) : TokenKind × List Char :=
  (token.kind, if token.kind.isLiteral then token.text else [])

/-- Whether a token is neither space nor a comment. -/
def isSignificant (token : Token) : Bool := token.kind ≠ .space && token.kind ≠ .comment

/-- Not both of two tokens end a line. -/
def Apart (first second : Token) : Prop := ¬(first.kind = .terminator ∧ second.kind = .terminator)

instance : DecidableRel Apart := fun _ _ => inferInstanceAs (Decidable (¬_))

/-- Names and numbers of the same sign make the same leaf. -/
theorem build_eq_of_sign_eq {first second : Token} (literal : first.kind.isLiteral = true)
    (same : first.sign = second.sign) : first.build Term.node = second.build Term.node := by
  obtain ⟨kind, text⟩ := Prod.mk.inj same
  rw [← kind, if_pos literal, if_pos literal] at text
  simp only [build, content, kind, text]

end Token

/-- The signs of tokens without space and comments, where line ends in a row count as one. -/
def significant (tokens : List Token) : List (TokenKind × List Char) :=
  ((tokens.filter Token.isSignificant).destutter Token.Apart).map Token.sign

/-- Behind a comment there is nothing on its line. -/
def CommentsEndLines (tokens : List Token) : Prop :=
  tokens.IsChain fun first second => first.kind = .comment → second.kind = .terminator

/-- Two drafts have the same leaves but for their places. -/
structure Draft.Alike (first second : Draft) : Prop where
  /-- The targets are the same. -/
  target : first.target.build Term.node = second.target.build Term.node
  /-- The operands are the same. -/
  operands : first.operands.map (·.build Term.node) = second.operands.map (·.build Term.node)

namespace Draft

variable {first second : Draft}

/-- A draft is like itself. -/
theorem Alike.refl (draft : Draft) : draft.Alike draft := ⟨rfl, rfl⟩

/-- A token that is passed over does not matter. -/
theorem alike_pass (draft : Draft) (token : Token) : (draft.pass token).Alike draft := ⟨rfl, rfl⟩

/-- It does not matter which tokens are passed over. -/
theorem Alike.pass (alike : first.Alike second) (here there : Token) :
    (first.pass here).Alike (second.pass there) := ⟨alike.target, alike.operands⟩

/-- Drafts are still alike with one more operand each that is the same. -/
theorem Alike.add (alike : first.Alike second) {here there : Token}
    (same : here.build Term.node = there.build Term.node) :
    (first.add here).Alike (second.add there) where
  target := alike.target
  operands := by simp only [Draft.add, List.map_append, alike.operands, List.map_cons, same,
    List.map_nil]

/-- Wherever they end, drafts that are alike make the same instruction. -/
theorem Alike.close (alike : first.Alike second) (stop late : Nat) :
    (first.close stop).build Term.node = (second.close late).build Term.node := by
  simp only [Draft.close, Statement.build, alike.target, alike.operands]

/-- Drafts that are alike make the same instruction where their lines are discarded. -/
theorem Alike.keep (alike : first.Alike second) :
    first.keep.build Term.node = second.keep.build Term.node :=
  alike.close _ _

end Draft

namespace Reading

/-- Two readings have seen the same but for its place. -/
inductive Alike : Reading → Reading → Prop
  /-- Nothing is held. -/
  | betweenStatements : Alike .betweenStatements .betweenStatements
  /-- Both stand behind a target. -/
  | afterTarget {first second : Draft} (drafts : first.Alike second) :
    Alike (.afterTarget first) (.afterTarget second)
  /-- Both stand behind an operand. -/
  | afterOperand {first second : Draft} (drafts : first.Alike second) :
    Alike (.afterOperand first) (.afterOperand second)
  /-- Both stand behind a comma. -/
  | afterDelimiter {first second : Draft} (drafts : first.Alike second) :
    Alike (.afterDelimiter first) (.afterDelimiter second)
  /-- Both stand behind a comment. -/
  | afterComment {first second : Draft} (drafts : first.Alike second) :
    Alike (.afterComment first) (.afterComment second)
  /-- Both discard a line that started with no statement. -/
  | discarding : Alike (.discarding none) (.discarding none)
  /-- Both discard the remainder of a line. -/
  | keeping {first second : Draft} (drafts : first.Alike second) :
    Alike (.discarding (some first)) (.discarding (some second))

/-- A reading is like itself. -/
theorem Alike.refl (reading : Reading) : reading.Alike reading := by
  cases reading with
  | betweenStatements => exact .betweenStatements
  | afterTarget draft => exact .afterTarget (.refl draft)
  | afterOperand draft => exact .afterOperand (.refl draft)
  | afterDelimiter draft => exact .afterDelimiter (.refl draft)
  | afterComment draft => exact .afterComment (.refl draft)
  | discarding draft =>
    cases draft with
    | none => exact .discarding
    | some draft => exact .keeping (.refl draft)

end Reading

/-- What is told, wherever it is: first what was expected, and then the term of the statement. -/
def told (notice : Option Notice) (statement : Option Statement) : List (Expectation ⊕ Term) :=
  (notice.bind Notice.expectation?).toList.map .inl ++
    (statement.map (·.build Term.node)).toList.map .inr

/-- Of statements with the same term the same is told. -/
theorem told_some {first second : Statement}
    (same : first.build Term.node = second.build Term.node) (notice : Option Notice) :
    told notice (some first) = told notice (some second) := by
  simp only [told, Option.map_some, same]

namespace Reading

/-- What is told of tokens up to the end of the source behind them. -/
def account (reading : Reading) : List Token → List (Expectation ⊕ Term)
  | [] => told reading.finish.notice reading.finish.statement
  | token :: others =>
    let step := reading.step token
    told step.notice step.statement ++ step.reading.account others

end Reading

/-- Two steps lead to readings that are alike, and the same is told of both. -/
structure Step.Alike (first second : Step) : Prop where
  /-- The readings are alike. -/
  reading : first.reading.Alike second.reading
  /-- The same is told. -/
  told : told first.notice first.statement = told second.notice second.statement

namespace Step

/-- A step is like itself. -/
theorem Alike.refl (step : Step) : step.Alike step := ⟨.refl step.reading, rfl⟩

/-- Nothing is told of reading on. -/
theorem Alike.onward {first second : Reading} (alike : first.Alike second) :
    (onward first).Alike (onward second) := ⟨alike, rfl⟩

/-- Statements with the same term leave nothing behind. -/
theorem Alike.complete {first second : Statement}
    (same : first.build Term.node = second.build Term.node) :
    (complete first).Alike (complete second) := ⟨.betweenStatements, told_some same none⟩

/-- A token that is refused ends a line in both readings or in none. -/
theorem Alike.refuse {notice : Notice} {first second : Draft} (drafts : first.Alike second)
    (kind : TokenKind) :
    (refuse notice (some first) kind).Alike (refuse notice (some second) kind) := by
  unfold Step.refuse
  split
  · exact ⟨.betweenStatements, told_some drafts.keep (some notice)⟩
  · exact ⟨.keeping drafts, rfl⟩

end Step

namespace Reading

/-- Tokens with the same sign take readings that are alike to readings that are alike, and the same
is told of both. -/
theorem Alike.step {first second : Reading} (alike : first.Alike second) {here there : Token}
    (same : here.sign = there.sign) : (first.step here).Alike (second.step there) := by
  have kind : there.kind = here.kind := (congrArg Prod.fst same).symm
  have build (literal : here.kind.isLiteral = true) := Token.build_eq_of_sign_eq literal same
  cases alike <;> cases found : here.kind <;> rw [found] at kind build <;>
    simp only [Reading.step, found, kind]
  case betweenStatements.identifier => exact .onward (.afterTarget ⟨build rfl, rfl⟩)
  case afterTarget.colon drafts => exact .complete (congrArg (Term.node <| .label ·) drafts.target)
  case afterTarget.identifier drafts | afterTarget.integer drafts |
      afterDelimiter.identifier drafts | afterDelimiter.integer drafts =>
    exact .onward (.afterOperand (drafts.add (build rfl)))
  case afterTarget.space drafts => exact .onward (.afterTarget (drafts.pass here there))
  case afterOperand.space drafts => exact .onward (.afterOperand (drafts.pass here there))
  case afterDelimiter.space drafts | afterOperand.delimiter drafts =>
    exact .onward (.afterDelimiter (drafts.pass here there))
  case afterTarget.comment drafts | afterOperand.comment drafts =>
    exact .onward (.afterComment (drafts.pass here there))
  case afterTarget.terminator drafts | afterOperand.terminator drafts |
      afterComment.terminator drafts =>
    exact .complete (drafts.close here.stop there.stop)
  case keeping.terminator drafts =>
    exact ⟨.betweenStatements, told_some drafts.keep none⟩
  all_goals
    first
    | exact .refl _
    | exact .refuse ‹_› _
    | exact .onward (.keeping ‹_›)

/-- The end of the source is the same to readings that are alike. -/
theorem Alike.finish {first second : Reading} (alike : first.Alike second) :
    told first.finish.notice first.finish.statement =
      told second.finish.notice second.finish.statement := by
  cases alike with
  | betweenStatements | discarding => rfl
  | afterTarget drafts | afterOperand drafts | afterComment drafts =>
    exact told_some (drafts.close _ _) none
  | afterDelimiter drafts => exact told_some drafts.keep _
  | keeping drafts => exact told_some drafts.keep none

/-- The same is told of tokens with the same signs by readings that are alike. -/
theorem Alike.account {first second : Reading} (alike : first.Alike second)
    {here there : List Token} (same : here.map Token.sign = there.map Token.sign) :
    first.account here = second.account there := by
  induction here generalizing first second there with
  | nil =>
    obtain rfl : there = [] := List.map_eq_nil_iff.mp same.symm
    exact alike.finish
  | cons token others ih =>
    cases there with
    | nil => contradiction
    | cons other more =>
      obtain ⟨sign, signs⟩ := List.cons.inj same
      have step := alike.step sign
      rw [Reading.account, Reading.account, step.told, ih step.reading signs]

/-- Unless a reading stands behind a comment, space takes it to one that is alike. -/
theorem step_space {reading : Reading} (noComment : ∀ draft, reading ≠ .afterComment draft)
    {token : Token} (space : token.kind = .space) :
    (reading.step token).Alike (.onward reading) := by
  cases reading <;> simp only [step, space]
  case afterTarget draft => exact .onward (.afterTarget (draft.alike_pass token))
  case afterOperand draft => exact .onward (.afterOperand (draft.alike_pass token))
  case afterDelimiter draft => exact .onward (.afterDelimiter (draft.alike_pass token))
  case afterComment draft => exact absurd rfl (noComment draft)
  all_goals exact .refl _

/-- Only a comment takes a reading behind a comment. -/
theorem step_ne_afterComment {reading : Reading} {token : Token}
    (noComment : ∀ draft, reading ≠ .afterComment draft) (other : token.kind ≠ .comment)
    (draft : Draft) : (reading.step token).reading ≠ .afterComment draft := by
  cases reading <;> cases kind : token.kind <;>
    simp_all [step, Step.onward, Step.complete, Step.refuse, TokenKind.isTrivia]

/-- The end of a line tells what the end of the source tells, and nothing is left of the line. -/
theorem account_terminator (reading : Reading) {token : Token} (mark : token.kind = .terminator)
    (others : List Token) :
    reading.account (token :: others) =
      reading.account [] ++ betweenStatements.account others := by
  have same : told (reading.step token).notice (reading.step token).statement =
      told reading.finish.notice reading.finish.statement := by
    cases reading <;> simp only [step, mark, finish]
    case afterTarget draft | afterOperand draft | afterComment draft =>
      exact told_some ((Draft.Alike.refl draft).close _ _) none
    all_goals rfl
  rw [account, account, step_terminator reading mark, same]

/-- Unless a reading stands behind a comment already, the end of the source behind a comment tells
what it tells in front of it. -/
theorem account_comment_nil {reading : Reading}
    (noComment : ∀ draft, reading ≠ .afterComment draft) {token : Token}
    (comment : token.kind = .comment) : reading.account [token] = reading.account [] := by
  cases reading <;> simp only [account, step, comment]
  case afterTarget draft | afterOperand draft =>
    exact told_some ((draft.alike_pass token).close _ _) none
  case afterComment draft => exact absurd rfl (noComment draft)
  all_goals rfl

/-- A comment in front of the end of its line or of the source does not matter. -/
theorem account_comment {reading : Reading} (noComment : ∀ draft, reading ≠ .afterComment draft)
    {token : Token} (comment : token.kind = .comment) {others : List Token}
    (ends : ∀ next, others.head? = some next → next.kind = .terminator) :
    reading.account (token :: others) = reading.account others := by
  cases others with
  | nil => exact account_comment_nil noComment comment
  | cons terminator rest =>
    have mark := ends terminator rfl
    rw [account_terminator reading mark, ← account_comment_nil noComment comment, account,
      account_terminator _ mark]
    exact (List.append_assoc ..).symm

/-- Space and comments do not matter where comments go to the end of their lines. -/
theorem account_filter {reading : Reading} (noComment : ∀ draft, reading ≠ .afterComment draft)
    {tokens : List Token} (ends : CommentsEndLines tokens) :
    reading.account tokens = reading.account (tokens.filter Token.isSignificant) := by
  induction tokens generalizing reading with
  | nil => rfl
  | cons token others ih =>
    have behind := ends.tail
    by_cases space : token.kind = .space
    · have step := step_space noComment space
      have dropped : ¬token.isSignificant = true := by simp [Token.isSignificant, space]
      rw [List.filter_cons_of_neg dropped, account, step.told, step.reading.account rfl,
        ← ih noComment behind]
      rfl
    · by_cases comment : token.kind = .comment
      · have next (next : Token) (head : others.head? = some next) : next.kind = .terminator :=
          ends.rel_head? head comment
        have dropped : ¬token.isSignificant = true := by simp [Token.isSignificant, comment]
        rw [List.filter_cons_of_neg dropped, account_comment noComment comment next,
          ih noComment behind]
      · have kept : token.isSignificant = true := by simp [Token.isSignificant, space, comment]
        rw [List.filter_cons_of_pos kept, account, account,
          ih (step_ne_afterComment noComment comment) behind]

/-- Only one of the line ends in a row matters. -/
theorem account_destutter' (reading : Reading) (token : Token) (others : List Token) :
    reading.account (others.destutter' Token.Apart token) = reading.account (token :: others) := by
  induction others generalizing reading token with
  | nil => rfl
  | cons next rest ih =>
    by_cases apart : token.Apart next
    · rw [List.destutter'_cons_pos _ apart, account, account, ih]
    · obtain ⟨first, second⟩ := Decidable.not_not.mp apart
      rw [List.destutter'_cons_neg _ apart, ih, account_terminator _ first,
        account_terminator _ first, account_terminator _ second]
      rfl

/-- What is told of tokens depends on those that are significant only, wherever they stand. -/
theorem account_eq_of_significant_eq {first second : List Token}
    (firstEnds : CommentsEndLines first) (secondEnds : CommentsEndLines second)
    (same : significant first = significant second) :
    betweenStatements.account first = betweenStatements.account second := by
  have merged (tokens : List Token) :
      betweenStatements.account (tokens.destutter Token.Apart) =
        betweenStatements.account tokens := by
    cases tokens with
    | nil => rfl
    | cons token others => exact account_destutter' _ token others
  have free (draft : Draft) : betweenStatements ≠ .afterComment draft := nofun
  rw [account_filter free firstEnds, account_filter free secondEnds, ← merged,
    Alike.betweenStatements.account same, merged]

end Reading

/-- The end of the source is one more sign. -/
theorem significant_concat (tokens : List Token) (last : Token) (final : last.kind = .endOfFile) :
    significant (tokens ++ [last]) = significant tokens ++ [last.sign] := by
  have kept : [last].filter Token.isSignificant = [last] := by
    simp [Token.isSignificant, final]
  have apart (token : Token) : token.Apart last := fun both => by
    rw [final] at both
    exact TokenKind.noConfusion both.2
  have behind (token : Token) (others : List Token) :
      (others ++ [last]).destutter' Token.Apart token =
        others.destutter' Token.Apart token ++ [last] := by
    induction others generalizing token with
    | nil => simp [apart]
    | cons next rest ih =>
      rw [List.cons_append, List.destutter'_cons, List.destutter'_cons, ih, ih]
      split <;> rfl
  rw [significant, significant, List.filter_append, kept]
  cases tokens.filter Token.isSignificant with
  | nil => rfl
  | cons token others =>
    rw [List.cons_append, List.destutter_cons', List.destutter_cons', behind, List.map_append]
    rfl

namespace Lexeme

/-- Behind a comment there is a line end or nothing. -/
theorem terminator_of_munched_comment {characters : List Char} {next : Lexeme}
    {others : List Lexeme} (munched : Munched (.token .comment characters :: next :: others)) :
    next.kind? = some .terminator := by
  obtain ⟨_, ends, lawful, _⟩ := munched
  obtain ⟨c, more, text⟩ := List.exists_cons_of_ne_nil (text_ne_nil_of_isLawful lawful)
  have stopped : TokenKind.continuesWith .comment c = false := by
    apply ends
    rw [List.flatMap_cons, text]
    rfl
  have lineBreak : isLineBreak c = true := by
    simpa [TokenKind.continuesWith] using stopped
  exact kind?_of_isLineBreak lawful (by simp [text]) lineBreak

/-- The comments among lexemes cut by longest match go to the ends of their lines. -/
theorem commentsEndLines_tokensFrom {lexemes : List Lexeme} (munched : Munched lexemes)
    (position : Nat) : CommentsEndLines (tokensFrom position lexemes) := by
  induction lexemes generalizing position with
  | nil => exact .nil
  | cons lexeme others ih =>
    have behind := ih munched.2.2 (position + Text.byteLength lexeme.text)
    cases lexeme with
    | stray c => exact behind
    | token kind characters =>
      refine List.IsChain.cons behind fun next head comment => ?_
      obtain rfl : kind = .comment := comment
      cases others with
      | nil => contradiction
      | cons first rest =>
        have mark := terminator_of_munched_comment munched
        cases first with
        | stray c => contradiction
        | token kind text =>
          obtain rfl := Option.some.inj head
          exact Option.some.inj mark

end Lexeme

/-- What was expected is told of a step, and so is the term of its statement. -/
theorem filterMap_told (notice : Option Notice) (statement : Option Statement) :
    (told notice statement).filterMap Sum.getLeft? = (notice.bind Notice.expectation?).toList ∧
      (told notice statement).filterMap Sum.getRight? =
        statement.toList.map (·.build Term.node) := by
  cases statement <;> simp [told, List.filterMap_map, Function.comp_def]

namespace Reading

/-- The terms of the statements are among what is told. -/
theorem getRight?_account (reading : Reading) (tokens : List Token) :
    (reading.account tokens).filterMap Sum.getRight? =
      (reading.statements tokens).map (·.build Term.node) := by
  induction tokens generalizing reading with
  | nil => exact (filterMap_told ..).2
  | cons token others ih =>
    rw [account, List.filterMap_append, (filterMap_told ..).2, ih, statements, List.map_append]

/-- A remark on a stretch of the source says what its notice does. -/
theorem filterMap_expectation?_remarksAt (position length : Nat) (notice : Option Notice) :
    (remarksAt position length notice).filterMap (·.notice.expectation?) =
      (notice.bind Notice.expectation?).toList := by
  cases notice with
  | none => rfl
  | some notice => cases expected : notice.expectation? <;> simp [remarksAt, expected]

/-- What was expected is told of the tokens among lexemes as it is remarked on the lexemes. -/
theorem getLeft?_account (reading : Reading) (position : Nat) (unended : Bool)
    (lexemes : List Lexeme) :
    (reading.account (Lexeme.tokensFrom position lexemes)).filterMap Sum.getLeft? =
      (reading.remarksToEnd position unended lexemes).filterMap (·.notice.expectation?) := by
  have single {notice : Option Notice} (each : ∀ {found}, notice = some found →
      found.isParsing = false) : notice.bind Notice.expectation? = none := by
    cases notice with
    | none => rfl
    | some notice => exact Notice.expectation?_eq_none (each rfl)
  induction lexemes generalizing reading position with
  | nil =>
    rw [remarksToEnd_nil, lastRemarks, List.filterMap_append, filterMap_expectation?_remarksAt,
      filterMap_expectation?_remarksAt, single (isParsing_expectedFinalNewline unended)]
    exact (filterMap_told ..).1
  | cons lexeme others ih =>
    cases lexeme with
    | stray c =>
      rw [remarksToEnd_stray, List.filterMap_append, filterMap_expectation?_remarksAt, ← ih]
      rfl
    | token kind text =>
      rw [remarksToEnd_token, List.filterMap_append, List.filterMap_append,
        filterMap_expectation?_remarksAt, filterMap_expectation?_remarksAt, ← ih,
        single Lexeme.isParsing_of_notice?, ← (filterMap_told _ (reading.step _).statement).1]
      exact List.filterMap_append ..

end Reading

/-- Two trees have the same nodes but for their places. -/
structure SyntaxTree.SameForms (first second : SyntaxTree) : Prop where
  /-- There are as many nodes. -/
  size : first.nodes.size = second.nodes.size
  /-- The roots have the same number. -/
  root : first.root = second.root
  /-- The nodes of a number hold the same, and the same node holds them. -/
  forms : ∀ id, (first.node id).map Node.form = (second.node id).map Node.form

/-- What diagnostics say to be missing, in their order. -/
def expectations (diagnostics : List Diagnostic) : List Expectation :=
  diagnostics.filterMap (·.notice.expectation?)

/-- Two texts with the same significant tokens have trees with the same nodes but for their places,
and the same is said to be missing in both. -/
theorem parseSource_eq_of_significant_eq (file other : String) (first second : List Char)
    (same : significant (surfacedTokens file first) =
      significant (surfacedTokens other second)) :
    ∃ front back : SyntaxTree,
      (parseSource file first .debug).1 = .ok front ∧
      (parseSource other second .debug).1 = .ok back ∧
      front.SameForms back ∧
      expectations (parseSource file first .debug).2.diagnostics.toList =
        expectations (parseSource other second .debug).2.diagnostics.toList := by
  have signs : significant (Lexeme.tokensFrom 0 (Lexeme.ofText first)) =
      significant (Lexeme.tokensFrom 0 (Lexeme.ofText second)) := by
    rw [surfacedTokens_eq, surfacedTokens_eq, significant_concat _ _ rfl,
      significant_concat _ _ rfl] at same
    exact List.append_cancel_right same
  have ends (source : List Char) :=
    Lexeme.commentsEndLines_tokensFrom (Lexeme.munched_ofText source) 0
  have account := Reading.account_eq_of_significant_eq (ends first) (ends second) signs
  have terms := congrArg (List.filterMap Sum.getRight?) account
  rw [Reading.getRight?_account, Reading.getRight?_account] at terms
  have expected := congrArg (List.filterMap Sum.getLeft?) account
  rw [Reading.getLeft?_account _ _ (isUnended first),
    Reading.getLeft?_account _ _ (isUnended second)] at expected
  let front := Program.ofLexemes 0 (Lexeme.ofText first)
  let back := Program.ofLexemes 0 (Lexeme.ofText second)
  obtain ⟨size, root, forms⟩ := @Program.grown_eq_of_build_eq front back terms
  refine ⟨front.grown, back.grown, fst_parseSource_debug file first,
    fst_parseSource_debug other second, ⟨size, root, forms⟩, ?_⟩
  rw [expectations, expectations, diagnostics_parseSource, diagnostics_parseSource,
    List.filterMap_map, List.filterMap_map]
  exact expected

/-- A comment behind a comma, an empty line and a stray character in the one text, and spaces before
marks in the other one. -/
theorem parseSource_eq_of_significant_eq_respaced :
    significant (surfacedTokens "a" "a: mvi b,;x\r\n\n?hlt".toList) =
      significant (surfacedTokens "b" "a :mvi  b ,\nhlt".toList) ∧
    ∃ front back : SyntaxTree,
      (parseSource "a" "a: mvi b,;x\r\n\n?hlt".toList .debug).1 = .ok front ∧
      (parseSource "b" "a :mvi  b ,\nhlt".toList .debug).1 = .ok back ∧
      front.SameForms back ∧
      expectations (parseSource "a" "a: mvi b,;x\r\n\n?hlt".toList .debug).2.diagnostics.toList =
        expectations (parseSource "b" "a :mvi  b ,\nhlt".toList .debug).2.diagnostics.toList := by
  let front : List Lexeme :=
    [.token .identifier ['a'], .token .colon [':'], .token .space [' '],
      .token .identifier ['m', 'v', 'i'], .token .space [' '], .token .identifier ['b'],
      .token .delimiter [','], .token .comment [';', 'x'], .token .terminator ['\r', '\n'],
      .token .terminator ['\n'], .stray '?', .token .identifier ['h', 'l', 't']]
  let back : List Lexeme :=
    [.token .identifier ['a'], .token .space [' '], .token .colon [':'],
      .token .identifier ['m', 'v', 'i'], .token .space [' ', ' '], .token .identifier ['b'],
      .token .space [' '], .token .delimiter [','], .token .terminator ['\n'],
      .token .identifier ['h', 'l', 't']]
  have frontCut : Lexeme.ofText "a: mvi b,;x\r\n\n?hlt".toList = front :=
    Lexeme.ofText_flatMap (show Lexeme.Munched front by decide)
  have backCut : Lexeme.ofText "a :mvi  b ,\nhlt".toList = back :=
    Lexeme.ofText_flatMap (show Lexeme.Munched back by decide)
  have same : significant (surfacedTokens "a" "a: mvi b,;x\r\n\n?hlt".toList) =
      significant (surfacedTokens "b" "a :mvi  b ,\nhlt".toList) := by
    rw [surfacedTokens_eq, surfacedTokens_eq, frontCut, backCut]
    decide
  exact ⟨same, parseSource_eq_of_significant_eq "a" "b" _ _ same⟩

end Assembly8085
