import Assembly8085.Reading
import Assembly8085.Proofs.Lexeme
import Assembly8085.Proofs.ProgramTree

/-!
# Runs of a reading

A reading is run over tokens from the first to the last. What one step can do is said once; it
follows for a whole run that each statement starts with an identifier, that its operands are
identifiers and integers, that all of these are tokens that were read, and that no statement ends
in front of its start.
-/
namespace Assembly8085

namespace Reading

/-- The reading behind tokens. -/
def advance (reading : Reading) (tokens : List Token) : Reading :=
  tokens.foldl (fun behind token => (behind.step token).reading) reading

/-- The statements that tokens complete. -/
def completed (reading : Reading) : List Token → List Statement
  | [] => []
  | token :: others =>
    let step := reading.step token
    step.statement.toList ++ step.reading.completed others

/-- Nothing is read of no tokens. -/
@[simp] theorem advance_nil (reading : Reading) : reading.advance [] = reading := rfl

/-- The first token is read before the others. -/
@[simp] theorem advance_cons (reading : Reading) (token : Token) (others : List Token) :
    reading.advance (token :: others) = (reading.step token).reading.advance others := rfl

/-- The reading behind two lists of tokens is that behind the second from the first on. -/
theorem advance_append (reading : Reading) (first second : List Token) :
    reading.advance (first ++ second) = (reading.advance first).advance second :=
  List.foldl_append

/-- Two lists of tokens complete what the first does and then what the second does. -/
theorem completed_append (reading : Reading) (first second : List Token) :
    reading.completed (first ++ second) =
      reading.completed first ++ (reading.advance first).completed second := by
  induction first generalizing reading with
  | nil => rfl
  | cons token others ih =>
    simp only [List.cons_append, completed, advance_cons, ih, List.append_assoc]

/-- The statements of two lists of tokens are those that the first completes and then those of
the second. -/
theorem statements_append (reading : Reading) (first second : List Token) :
    reading.statements (first ++ second) =
      reading.completed first ++ (reading.advance first).statements second := by
  induction first generalizing reading with
  | nil => rfl
  | cons token others ih =>
    simp only [List.cons_append, statements, completed, advance_cons, ih, List.append_assoc]

/-- The statements of tokens are those that they complete and then the one that the end does. -/
theorem statements_eq (reading : Reading) (tokens : List Token) :
    reading.statements tokens =
      reading.completed tokens ++ (reading.advance tokens).finish.statement.toList := by
  simpa [statements] using reading.statements_append tokens []

/-- What is to be said in the order of tokens. -/
def notices (reading : Reading) : List Token → List Notice
  | [] => []
  | token :: others =>
    let step := reading.step token
    step.notice.toList ++ step.reading.notices others

/-- What is to be said about two lists of tokens is said about the first and then about the
second. -/
theorem notices_append (reading : Reading) (first second : List Token) :
    reading.notices (first ++ second) =
      reading.notices first ++ (reading.advance first).notices second := by
  induction first generalizing reading with
  | nil => rfl
  | cons token others ih =>
    simp only [List.cons_append, notices, advance_cons, ih, List.append_assoc]

/-- Tokens take a reading to another one and complete statements, and none of them is out of
order. -/
structure Passes (reading : Reading) (tokens : List Token) (after : Reading)
    (statements : List Statement) : Prop where
  /-- The reading behind the tokens. -/
  advance : reading.advance tokens = after
  /-- The statements completed. -/
  completed : reading.completed tokens = statements
  /-- Nothing is to be said. -/
  notices : reading.notices tokens = []

/-- No tokens leave a reading as it is. -/
theorem passes_nil (reading : Reading) : reading.Passes [] reading [] := ⟨rfl, rfl, rfl⟩

/-- A token with nothing to be said about it comes before others. -/
theorem Passes.cons {reading next after : Reading} (token : Token) {others : List Token}
    {statement : Option Statement} {statements : List Statement}
    (here : reading.step token = ⟨next, statement, none⟩)
    (behind : next.Passes others after statements) :
    reading.Passes (token :: others) after (statement.toList ++ statements) where
  advance := by rw [advance_cons, here, behind.advance]
  completed := by simp only [Reading.completed, here, behind.completed]
  notices := by simp only [Reading.notices, here, behind.notices]; rfl

/-- A reading goes on from where tokens have taken it. -/
theorem Passes.append {first second third : Reading} {here behind : List Token}
    {early late : List Statement} (before : first.Passes here second early)
    (later : second.Passes behind third late) :
    first.Passes (here ++ behind) third (early ++ late) where
  advance := by rw [advance_append, before.advance, later.advance]
  completed := by rw [completed_append, before.advance, before.completed, later.completed]
  notices := by rw [notices_append, before.advance, before.notices, later.notices]; rfl

/-- Tokens that take a reading somewhere complete the statements before those of the others. -/
theorem Passes.statements {reading after : Reading} {tokens others : List Token}
    {early : List Statement} (passes : reading.Passes tokens after early) :
    reading.statements (tokens ++ others) = early ++ after.statements others := by
  rw [statements_append, passes.advance, passes.completed]

/-- The instruction that has been read in part. -/
def draft? : Reading → Option Draft
  | .betweenStatements => none
  | .afterTarget draft | .afterOperand draft | .afterDelimiter draft | .afterComment draft =>
    some draft
  | .discarding draft => draft

/-- A step leaves the draft, passes over its token, adds the token as an operand, or starts a
draft with it. -/
theorem draft?_step {reading : Reading} {token : Token} {after : Draft}
    (there : (reading.step token).reading.draft? = some after) :
    (∃ before, reading.draft? = some before ∧
      (after = before ∨ after = before.pass token ∨
        (token.kind.isLiteral = true ∧ after = before.add token))) ∨
    (token.kind = .identifier ∧ after = .start token) := by
  cases reading <;> cases kind : token.kind <;>
    simp_all [step, Step.onward, Step.complete, Step.refuse, TokenKind.isTrivia,
      TokenKind.isLiteral, draft?]

/-- A statement that a step completes is a label or an instruction made of the draft. -/
theorem statement_step {reading : Reading} {token : Token} {statement : Statement}
    (there : (reading.step token).statement = some statement) :
    ∃ before, reading.draft? = some before ∧
      (statement = .label before.target token.stop ∨ statement = before.close token.stop ∨
        statement = before.keep) := by
  cases reading <;> cases kind : token.kind <;>
    simp_all [step, Step.onward, Step.complete, Step.refuse, TokenKind.isTrivia, draft?]
  obtain ⟨before, same, kept⟩ := there
  exact ⟨before, same, .inr (.inr kept.symm)⟩

/-- A statement that the end of the source completes is an instruction made of the draft. -/
theorem statement_finish {reading : Reading} {statement : Statement}
    (there : reading.finish.statement = some statement) :
    ∃ before, reading.draft? = some before ∧
      (statement = before.close before.reach ∨ statement = before.keep) := by
  cases reading <;> simp_all [finish, draft?]
  obtain ⟨before, same, kept⟩ := there
  exact ⟨before, same, .inr kept.symm⟩

/-- What a step gives rise to say is about the order of tokens. -/
theorem isParsing_step (reading : Reading) (token : Token) {notice : Notice}
    (there : (reading.step token).notice = some notice) : notice.isParsing = true := by
  cases reading <;> cases kind : token.kind <;>
    simp only [step, kind, Step.onward, Step.complete, Step.refuse, TokenKind.isTrivia,
      reduceCtorEq, if_true, if_false, Bool.false_eq_true, Option.some.injEq] at there <;>
    (subst there; rfl)

/-- What the end of the source gives rise to say is about the order of tokens. -/
theorem isParsing_finish (reading : Reading) {notice : Notice}
    (there : reading.finish.notice = some notice) : notice.isParsing = true := by
  cases reading with
  | afterDelimiter draft =>
    obtain rfl := Option.some.inj there
    rfl
  | _ => contradiction

end Reading

/-- A notice about the order of tokens is an error. -/
theorem Notice.isError_of_isParsing {notice : Notice} (parsing : notice.isParsing = true) :
    notice.isError = true := by
  cases notice <;> simp_all [isParsing, isError, severity]

section Sound

variable (allowed : Token → Prop)

/-- An instruction that has been read in part is well formed, and all its leaves are among the
tokens that a predicate allows. -/
structure Draft.Sound (draft : Draft) : Prop where
  /-- However it ends, the instruction is well formed. -/
  wellFormed : ∀ stop, (draft.close stop).WellFormed
  /-- The target is allowed. -/
  target : allowed draft.target
  /-- The operands are allowed. -/
  operands : ∀ operand ∈ draft.operands, allowed operand

/-- A statement is well formed, and all its leaves are among the tokens that a predicate
allows. -/
structure Statement.Sound (statement : Statement) : Prop where
  /-- The statement is well formed. -/
  wellFormed : statement.WellFormed
  /-- The leaves are allowed. -/
  leaves : ∀ leaf ∈ statement.leaves, allowed leaf

variable {allowed}

/-- An instruction is sound if its draft is. -/
theorem Draft.Sound.close {draft : Draft} (sound : draft.Sound allowed) (stop : Nat) :
    (draft.close stop).Sound allowed := by
  refine ⟨sound.wellFormed stop, ?_⟩
  intro leaf member
  rcases List.mem_cons.mp member with rfl | operand
  · exact sound.target
  · exact sound.operands leaf operand

/-- A label is sound if its draft is. -/
theorem Draft.Sound.label {draft : Draft} (sound : draft.Sound allowed) (stop : Nat) :
    (Statement.label draft.target stop).Sound allowed := by
  refine ⟨⟨(sound.wellFormed stop).head, by simp [Statement.operands]⟩, ?_⟩
  intro leaf member
  obtain rfl := List.mem_singleton.mp member
  exact sound.target

/-- A step keeps drafts sound if its token is allowed. -/
theorem Reading.sound_step {reading : Reading} {token : Token} (permitted : allowed token)
    (sound : ∀ draft, reading.draft? = some draft → draft.Sound allowed) (draft : Draft)
    (there : (reading.step token).reading.draft? = some draft) : draft.Sound allowed := by
  rcases draft?_step there with ⟨before, held, rfl | rfl | ⟨literal, rfl⟩⟩ | ⟨identifier, rfl⟩
  · exact sound _ held
  · obtain ⟨wellFormed, target, operands⟩ := sound _ held
    exact ⟨wellFormed, target, operands⟩
  · obtain ⟨wellFormed, target, operands⟩ := sound _ held
    refine ⟨fun stop => ⟨(wellFormed stop).head, ?_⟩, target, ?_⟩
    · intro operand member
      rcases List.mem_append.mp member with old | new
      · exact (wellFormed stop).operands operand old
      · exact List.mem_singleton.mp new ▸ literal
    · intro operand member
      rcases List.mem_append.mp member with old | new
      · exact operands operand old
      · exact List.mem_singleton.mp new ▸ permitted
  · exact ⟨fun stop => ⟨identifier, by simp [Draft.close, Draft.start, Statement.operands]⟩,
      permitted, by simp [Draft.start]⟩

/-- The statements of a run are sound if all tokens are allowed. -/
theorem Reading.sound_statements {reading : Reading} {tokens : List Token}
    (sound : ∀ draft, reading.draft? = some draft → draft.Sound allowed)
    (permitted : ∀ token ∈ tokens, allowed token) (statement : Statement)
    (member : statement ∈ reading.statements tokens) : statement.Sound allowed := by
  induction tokens generalizing reading with
  | nil =>
    obtain ⟨before, held, rfl | rfl⟩ := statement_finish (Option.mem_toList.mp member)
    · exact (sound _ held).close _
    · exact (sound _ held).close _
  | cons token others ih =>
    rcases List.mem_append.mp member with here | behind
    · obtain ⟨before, held, rfl | rfl | rfl⟩ := statement_step (Option.mem_toList.mp here)
      · exact (sound _ held).label _
      · exact (sound _ held).close _
      · exact (sound _ held).close _
    · exact ih (sound_step (permitted token (List.mem_cons_self ..)) sound)
        (fun other later => permitted other (List.mem_cons_of_mem _ later)) behind

/-- The statements of a source are made of its tokens. -/
theorem Program.sound_ofLexemes (position : Nat) (lexemes : List Lexeme) (statement : Statement)
    (member : statement ∈ (Program.ofLexemes position lexemes).statements) :
    statement.Sound (· ∈ Lexeme.tokensFrom position lexemes) :=
  Reading.sound_statements (by simp [Reading.draft?]) (fun _ there => there) statement member

/-- The program that lexemes make up is well formed. -/
theorem Program.wellFormed_ofLexemes (position : Nat) (lexemes : List Lexeme) :
    (Program.ofLexemes position lexemes).WellFormed :=
  fun statement member => (sound_ofLexemes position lexemes statement member).wellFormed

end Sound

/-- An instruction that has been read in part does not end in front of its start, however its line
goes on. -/
structure Draft.Forward (draft : Draft) : Prop where
  /-- The line has come at least as far as the target starts. -/
  reach : draft.target.position ≤ draft.reach
  /-- The last leaf ends at least where the target starts. -/
  last : draft.target.position ≤ (draft.operands.getLastD draft.target).stop

namespace Reading

/-- The instruction that has been read in part ends behind its start, and no token of the others
stands in front of that. -/
def Forward (reading : Reading) (tokens : List Token) : Prop :=
  ∀ draft, reading.draft? = some draft →
    draft.Forward ∧ ∀ token ∈ tokens, draft.target.position ≤ token.position

/-- A step keeps a reading going forward. -/
theorem Forward.step {reading : Reading} {token : Token} {others : List Token}
    (forward : reading.Forward (token :: others))
    (ordered : ∀ other ∈ others, token.position ≤ other.position) :
    (reading.step token).reading.Forward others := by
  have length : token.position ≤ token.stop := Nat.le_add_right ..
  intro draft there
  rcases draft?_step there with ⟨before, held, rfl | rfl | ⟨_, rfl⟩⟩ | ⟨_, rfl⟩
  · obtain ⟨sound, behind⟩ := forward _ held
    exact ⟨sound, fun other member => behind other (List.mem_cons_of_mem _ member)⟩
  · obtain ⟨sound, behind⟩ := forward _ held
    have here := behind token (List.mem_cons_self ..)
    exact ⟨⟨Nat.le_trans here length, sound.last⟩,
      fun other member => behind other (List.mem_cons_of_mem _ member)⟩
  · obtain ⟨sound, behind⟩ := forward _ held
    have here := behind token (List.mem_cons_self ..)
    refine ⟨⟨Nat.le_trans here length, ?_⟩,
      fun other member => behind other (List.mem_cons_of_mem _ member)⟩
    simpa [Draft.add] using Nat.le_trans here length
  · exact ⟨⟨length, length⟩, ordered⟩

/-- No statement of tokens that stand one behind the other ends in front of its start. -/
theorem start_le_stop_of_mem_statements {reading : Reading} {tokens : List Token}
    (forward : reading.Forward tokens) (ordered : tokens.Pairwise (·.position ≤ ·.position))
    (statement : Statement) (member : statement ∈ reading.statements tokens) :
    statement.start ≤ statement.stop := by
  induction tokens generalizing reading with
  | nil =>
    obtain ⟨before, held, rfl | rfl⟩ := statement_finish (Option.mem_toList.mp member)
    · exact (forward _ held).1.reach
    · exact (forward _ held).1.last
  | cons token others ih =>
    obtain ⟨behind, ordered⟩ := List.pairwise_cons.mp ordered
    rcases List.mem_append.mp member with here | later
    · obtain ⟨before, held, same⟩ := statement_step (Option.mem_toList.mp here)
      obtain ⟨sound, reached⟩ := forward _ held
      have past : before.target.position ≤ token.stop :=
        Nat.le_trans (reached token (List.mem_cons_self ..)) (Nat.le_add_right ..)
      rcases same with rfl | rfl | rfl
      · exact past
      · exact past
      · exact sound.last
    · exact ih (forward.step behind) ordered later

end Reading

/-- No statement of a program that lexemes make up ends in front of its start. -/
theorem Program.start_le_stop_of_mem_ofLexemes {position : Nat} {lexemes : List Lexeme}
    {statement : Statement} (member : statement ∈ (Program.ofLexemes position lexemes).statements) :
    statement.start ≤ statement.stop := by
  have ordered := (Lexeme.pairwise_tokensFrom position lexemes).imp fun before =>
    Nat.le_trans (Nat.le_add_right ..) before
  have fresh : Reading.betweenStatements.Forward (Lexeme.tokensFrom position lexemes) := by
    simp [Reading.Forward, Reading.draft?]
  exact Reading.start_le_stop_of_mem_statements fresh ordered statement member

end Assembly8085
