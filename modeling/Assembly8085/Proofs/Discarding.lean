import Mathlib.Data.List.Basic
import Assembly8085.Proofs.Reading
import Assembly8085.Proofs.Slice

/-!
# Discarded parts of lines

From a token that is out of order on, a reading discards what is left of the line. The names and
numbers that it does not discard become the leaves of its statements, in order and each once. So
which tokens become leaves is known from the tokens that are out of order.
-/
namespace Assembly8085

/-- The tokens up to the next line break or, if there is none, all of them. -/
def Token.restOfLine (tokens : List Token) : List Token := tokens.takeWhile (·.kind ≠ .terminator)

/-- The tokens from the one that has a span up to the next line break. -/
def Span.restOfLine (span : Span) (tokens : List Token) : List Token :=
  Token.restOfLine (tokens.dropWhile (·.span ≠ span))

namespace Token

/-- What is left of a line is nothing at its end, and otherwise the first token and what is left
behind it. -/
theorem mem_restOfLine_cons {token other : Token} {others : List Token} :
    other ∈ restOfLine (token :: others) ↔
      token.kind ≠ .terminator ∧ (other = token ∨ other ∈ restOfLine others) := by
  simp only [restOfLine, List.takeWhile_cons]
  split <;> simp_all

/-- What is left of a line is part of the tokens. -/
theorem restOfLine_subset (tokens : List Token) : restOfLine tokens ⊆ tokens :=
  List.takeWhile_subset _

end Token

namespace Span

/-- The tokens from the first one on are what is left of its line. -/
theorem restOfLine_self (token : Token) (others : List Token) :
    token.span.restOfLine (token :: others) = Token.restOfLine (token :: others) := by
  simp [restOfLine]

/-- A token in front of the one with the span does not count. -/
theorem restOfLine_cons_of_ne {span : Span} {token : Token} (other : token.span ≠ span)
    (others : List Token) : span.restOfLine (token :: others) = span.restOfLine others := by
  simp [restOfLine, other]

/-- The tokens from a span up to the next line break are part of the tokens. -/
theorem restOfLine_subset (span : Span) (tokens : List Token) :
    span.restOfLine tokens ⊆ tokens := fun _ member =>
  (List.dropWhile_sublist _).subset (Token.restOfLine_subset _ member)

end Span

namespace Reading

/-- Whether the remainder of the present line is discarded. -/
def isDiscarding : Reading → Bool
  | .discarding _ => true
  | _ => false

/-- The leaves of the instruction that has been read in part. -/
def leaves (reading : Reading) : List Token :=
  reading.draft?.elim [] fun draft => draft.target :: draft.operands

/-- Whether a token becomes a leaf. -/
def keeps (reading : Reading) (token : Token) : Bool :=
  token.kind.isLiteral && !reading.isDiscarding && (reading.step token).notice.isNone

/-- The tokens that become leaves. -/
def kept (reading : Reading) : List Token → List Token
  | [] => []
  | token :: others =>
    (if reading.keeps token then [token] else []) ++ (reading.step token).reading.kept others

/-- The tokens that are out of order; the end of the source, which is given as a token, may be the
last one. -/
def refused (reading : Reading) (last : Token) : List Token → List Token
  | [] => if reading.finish.notice.isSome then [last] else []
  | token :: others =>
    (if (reading.step token).notice.isSome then [token] else []) ++
      (reading.step token).reading.refused last others

/-- Directly behind a target no operand has been read. -/
def Orderly : Reading → Prop
  | .afterTarget draft => draft.operands = []
  | _ => True

/-- A step keeps readings orderly. -/
theorem Orderly.step {reading : Reading} (orderly : reading.Orderly) (token : Token) :
    (reading.step token).reading.Orderly := by
  cases reading with
  | afterTarget draft =>
    have none : draft.operands = [] := orderly
    cases kind : token.kind <;>
      simp [Reading.step, kind, Step.onward, Step.complete, Step.refuse, Orderly, Draft.pass, none]
  | _ =>
    cases kind : token.kind <;>
      simp [Reading.step, kind, Step.onward, Step.complete, Step.refuse, TokenKind.isTrivia,
        Orderly, Draft.start]

/-- A step hands the leaves on, to the statement that it completes or to the reading behind it,
and its token becomes the last one of them if it is kept. -/
theorem leaves_step {reading : Reading} (orderly : reading.Orderly) (token : Token) :
    (reading.step token).statement.toList.flatMap Statement.leaves ++
        (reading.step token).reading.leaves =
      reading.leaves ++ if reading.keeps token then [token] else [] := by
  cases reading with
  | afterTarget draft =>
    have none : draft.operands = [] := orderly
    cases kind : token.kind <;>
      simp [step, kind, Step.onward, Step.complete, Step.refuse, TokenKind.isLiteral, keeps,
        isDiscarding, leaves, draft?, Draft.close, Draft.add, Draft.pass, Statement.leaves, none]
  | discarding draft =>
    cases draft <;> cases kind : token.kind <;>
      simp [step, kind, Step.onward, keeps, isDiscarding, leaves, draft?, Draft.keep, Draft.close,
        Statement.leaves]
  | _ =>
    cases kind : token.kind <;>
      simp [step, kind, Step.onward, Step.complete, Step.refuse, TokenKind.isTrivia,
        TokenKind.isLiteral, keeps, isDiscarding, leaves, draft?, Draft.keep, Draft.close,
        Draft.start, Draft.add, Draft.pass, Statement.leaves]

/-- The end of the source hands all leaves to the last statement. -/
theorem leaves_finish (reading : Reading) :
    reading.finish.statement.toList.flatMap Statement.leaves = reading.leaves := by
  cases reading with
  | discarding draft => cases draft <;> simp [finish, leaves, draft?, Draft.keep, Draft.close,
      Statement.leaves]
  | _ => simp [finish, leaves, draft?, Draft.keep, Draft.close, Statement.leaves]

/-- The leaves of the statements of tokens are those of the draft and the tokens that are kept. -/
theorem flatMap_leaves_statements {reading : Reading} (orderly : reading.Orderly)
    (tokens : List Token) :
    (reading.statements tokens).flatMap Statement.leaves =
      reading.leaves ++ reading.kept tokens := by
  induction tokens generalizing reading with
  | nil => rw [statements, leaves_finish, kept, List.append_nil]
  | cons token others ih =>
    rw [statements, List.flatMap_append, ih (orderly.step token), ← List.append_assoc,
      leaves_step orderly, List.append_assoc, kept]

/-- A line is discarded from the token that is out of order up to its end. -/
theorem isDiscarding_step (reading : Reading) (token : Token) :
    (reading.step token).reading.isDiscarding =
      (decide (token.kind ≠ .terminator) &&
        (reading.isDiscarding || (reading.step token).notice.isSome)) := by
  cases reading <;> cases kind : token.kind <;>
    simp [step, kind, Step.onward, Step.complete, Step.refuse, TokenKind.isTrivia, isDiscarding]

/-- The tokens that are out of order are among those that are read. -/
theorem refused_subset (reading : Reading) (last : Token) (tokens : List Token) :
    reading.refused last tokens ⊆ tokens ++ [last] := by
  induction tokens generalizing reading with
  | nil =>
    rw [refused]
    split <;> simp
  | cons token others ih =>
    intro other member
    rcases List.mem_append.mp member with here | behind
    · split at here
      · rw [List.mem_singleton.mp here]
        exact List.mem_cons_self ..
      · contradiction
    · exact List.mem_cons_of_mem _ (ih _ behind)

/-- The tokens that are discarded: those in what is left of a line that is discarded already, and
those from each one that is out of order up to the end of its line. -/
def discarded (reading : Reading) (last : Token) (tokens : List Token) : List Token :=
  (if reading.isDiscarding then Token.restOfLine (tokens ++ [last]) else []) ++
    (reading.refused last tokens).flatMap (·.span.restOfLine (tokens ++ [last]))

/-- The first of tokens is discarded if it does not end its line and either the line is discarded
already or the token is out of order; the others are discarded as they are behind it. -/
theorem mem_discarded_cons (reading : Reading) {last token : Token} {others : List Token}
    (distinct : (token :: (others ++ [last])).Pairwise (·.span ≠ ·.span)) (other : Token) :
    other ∈ reading.discarded last (token :: others) ↔
      if other = token then
        token.kind ≠ .terminator ∧
          (reading.isDiscarding ∨ (reading.step token).notice.isSome)
      else other ∈ (reading.step token).reading.discarded last others := by
  obtain ⟨apart, _⟩ := List.pairwise_cons.mp distinct
  have absent : token ∉ others ++ [last] := fun member => apart token member rfl
  -- The stretches of later lines are the same whether the first token is there or not.
  have later : ((reading.step token).reading.refused last others).flatMap
        (·.span.restOfLine (token :: (others ++ [last]))) =
      ((reading.step token).reading.refused last others).flatMap
        (·.span.restOfLine (others ++ [last])) :=
    List.flatMap_congr fun next member =>
      Span.restOfLine_cons_of_ne (apart next (refused_subset _ _ _ member)) _
  have here : other ∈ (if (reading.step token).notice.isSome then [token] else []).flatMap
        (·.span.restOfLine (token :: (others ++ [last]))) ↔
      (reading.step token).notice.isSome ∧
        other ∈ Token.restOfLine (token :: (others ++ [last])) := by
    split <;> simp_all [Span.restOfLine_self]
  have held : other ∈ (if reading.isDiscarding then
        Token.restOfLine (token :: (others ++ [last])) else []) ↔
      reading.isDiscarding ∧ other ∈ Token.restOfLine (token :: (others ++ [last])) := by
    split <;> simp_all
  rw [discarded, refused, List.cons_append, List.flatMap_append, later, List.mem_append,
    List.mem_append, here, held, Token.mem_restOfLine_cons]
  split
  · rename_i same
    subst same
    have outside : other ∉ ((reading.step other).reading.refused last others).flatMap
        (·.span.restOfLine (others ++ [last])) := by
      intro member
      obtain ⟨next, _, inside⟩ := List.mem_flatMap.mp member
      exact absent (Span.restOfLine_subset _ _ inside)
    grind
  · rw [discarded, List.mem_append, isDiscarding_step]
    grind

/-- The tokens that are kept are the names and numbers that are not discarded. -/
theorem kept_eq_filter (reading : Reading) {last : Token} {tokens : List Token}
    (distinct : (tokens ++ [last]).Pairwise (·.span ≠ ·.span))
    (mark : last.kind.isLiteral = false) :
    reading.kept tokens =
      (tokens ++ [last]).filter fun token =>
        token.kind.isLiteral && decide (token ∉ reading.discarded last tokens) := by
  induction tokens generalizing reading with
  | nil => simp [kept, mark]
  | cons token others ih =>
    have member := reading.mem_discarded_cons distinct
    obtain ⟨apart, distinct⟩ := List.pairwise_cons.mp distinct
    have itself : reading.keeps token = (token.kind.isLiteral &&
        decide (token ∉ reading.discarded last (token :: others))) := by
      simp only [member, if_true, keeps]
      cases token.kind <;> cases (reading.step token).notice <;> simp [TokenKind.isLiteral]
    have behind : ∀ other ∈ others ++ [last],
        (other.kind.isLiteral &&
          decide (other ∉ (reading.step token).reading.discarded last others)) =
        (other.kind.isLiteral && decide (other ∉ reading.discarded last (token :: others))) := by
      intro other there
      have different : other ≠ token := fun same => apart other there (congrArg _ same.symm)
      simp only [member, different, if_false]
    rw [kept, ih _ distinct, List.cons_append, List.filter_cons, ← itself,
      List.filter_congr behind]
    split <;> rfl

end Reading

end Assembly8085
