import Assembly8085.Proofs.Remarks

/-!
# Shifted positions

What is read of tokens does not depend on the offset at which they stand: behind other bytes the
same statements and remarks come of them, at offsets that are larger by the number of these
bytes. In the same way the nodes of statements do not depend on the number of the first one.
-/
namespace Assembly8085

/-- The token that many bytes later. -/
def Token.shift (bytes : Nat) (token : Token) : Token :=
  { token with position := token.position + bytes }

/-- A later token ends that much later. -/
@[simp] theorem Token.stop_shift (bytes : Nat) (token : Token) :
    (token.shift bytes).stop = token.stop + bytes := by
  simp only [stop, shift, length]
  omega

/-- The statement that many bytes later. -/
def Statement.shift (bytes : Nat) : Statement → Statement
  | .label name stop => .label (name.shift bytes) (stop + bytes)
  | .instruction target operands stop =>
    .instruction (target.shift bytes) (operands.map (·.shift bytes)) (stop + bytes)

namespace Draft

/-- The draft that many bytes later. -/
def shift (bytes : Nat) (draft : Draft) : Draft :=
  ⟨draft.target.shift bytes, draft.operands.map (·.shift bytes), draft.reach + bytes⟩

variable (bytes : Nat) (draft : Draft) (token : Token)

/-- A later token starts a later draft. -/
theorem start_shift : start (token.shift bytes) = (start token).shift bytes := by
  simp [start, shift]

/-- A later draft passes over a later token. -/
theorem pass_shift : (draft.shift bytes).pass (token.shift bytes) =
    (draft.pass token).shift bytes := by
  simp [pass, shift]

/-- A later draft gains a later operand. -/
theorem add_shift : (draft.shift bytes).add (token.shift bytes) =
    (draft.add token).shift bytes := by
  simp [add, shift]

/-- A later draft is closed later. -/
theorem close_shift (stop : Nat) :
    (draft.shift bytes).close (stop + bytes) = (draft.close stop).shift bytes := rfl

/-- A later draft is kept as far as it goes, which is later. -/
theorem keep_shift : (draft.shift bytes).keep = draft.keep.shift bytes := by
  have last : (draft.operands.map (·.shift bytes)).getLastD (draft.target.shift bytes) =
      (draft.operands.getLastD draft.target).shift bytes := by
    simp [List.getLastD_eq_getLast?, Option.getD_map (Token.shift bytes)]
  have stop := congrArg Token.stop last
  rw [Token.stop_shift] at stop
  rw [keep, keep, ← close_shift, ← stop]
  rfl

end Draft

namespace Reading

/-- The reading that many bytes later. -/
def shift (bytes : Nat) : Reading → Reading
  | .betweenStatements => .betweenStatements
  | .afterTarget draft => .afterTarget (draft.shift bytes)
  | .afterOperand draft => .afterOperand (draft.shift bytes)
  | .afterDelimiter draft => .afterDelimiter (draft.shift bytes)
  | .afterComment draft => .afterComment (draft.shift bytes)
  | .discarding draft => .discarding (draft.map (·.shift bytes))

/-- A step does not depend on where its token stands. -/
theorem step_shift (bytes : Nat) (reading : Reading) (token : Token) :
    (reading.shift bytes).step (token.shift bytes) =
      ⟨(reading.step token).reading.shift bytes,
        (reading.step token).statement.map (·.shift bytes), (reading.step token).notice⟩ := by
  have kind : (token.shift bytes).kind = token.kind := rfl
  have label (draft : Draft) : Statement.label (draft.shift bytes).target (token.stop + bytes) =
      (Statement.label draft.target token.stop).shift bytes := rfl
  cases reading <;> cases same : token.kind <;>
    simp [step, kind, same, shift, Step.onward, Step.complete, Step.refuse, TokenKind.isTrivia,
      Draft.start_shift, Draft.pass_shift, Draft.add_shift, Draft.close_shift, Draft.keep_shift,
      label, Function.comp_def]

/-- The end of the source does not depend on where it stands. -/
theorem finish_shift (bytes : Nat) (reading : Reading) :
    (reading.shift bytes).finish =
      { reading.finish with statement := reading.finish.statement.map (·.shift bytes) } := by
  have reach (draft : Draft) : (draft.shift bytes).reach = draft.reach + bytes := rfl
  cases reading <;>
    simp [finish, shift, reach, Draft.close_shift, Draft.keep_shift, Function.comp_def]

/-- The statements of later tokens are later. -/
theorem statements_shift (bytes : Nat) (reading : Reading) (tokens : List Token) :
    (reading.shift bytes).statements (tokens.map (·.shift bytes)) =
      (reading.statements tokens).map (·.shift bytes) := by
  induction tokens generalizing reading with
  | nil =>
    rw [List.map_nil, statements, statements, finish_shift]
    cases reading.finish.statement <;> rfl
  | cons token others ih =>
    rw [List.map_cons, statements, statements, step_shift]
    simp only [ih, List.map_append]
    cases (reading.step token).statement <;> rfl

/-- Later tokens lead to a later reading, and the same is said about them. -/
theorem run_shift (bytes : Nat) (reading : Reading) (tokens : List Token) :
    (reading.shift bytes).advance (tokens.map (·.shift bytes)) =
        (reading.advance tokens).shift bytes ∧
      (reading.shift bytes).notices (tokens.map (·.shift bytes)) = reading.notices tokens := by
  induction tokens generalizing reading with
  | nil => exact ⟨rfl, rfl⟩
  | cons token others ih =>
    obtain ⟨advance, notices⟩ := ih (reading.step token).reading
    rw [List.map_cons, advance_cons, advance_cons, Reading.notices, Reading.notices, step_shift]
    exact ⟨advance, congrArg _ notices⟩

end Reading

/-- The remark that many bytes later. -/
def Remark.shift (bytes : Nat) (remark : Remark) : Remark :=
  { remark with position := remark.position + bytes }

/-- Remarks on a later stretch of the source are later. -/
theorem remarksAt_shift (bytes position length : Nat) (notice : Option Notice) :
    remarksAt (position + bytes) length notice =
      (remarksAt position length notice).map (·.shift bytes) := by
  cases notice <;> rfl

/-- The tokens among later lexemes are later. -/
theorem Lexeme.tokensFrom_shift (bytes position : Nat) (lexemes : List Lexeme) :
    tokensFrom (position + bytes) lexemes = (tokensFrom position lexemes).map (·.shift bytes) := by
  induction lexemes generalizing position with
  | nil => rfl
  | cons lexeme others ih =>
    rw [tokensFrom, tokensFrom, Nat.add_right_comm, ih]
    cases lexeme <;> rfl

/-- The remarks on later lexemes are later. -/
theorem Reading.remarksToEnd_shift (bytes position : Nat) (unended : Bool) (reading : Reading)
    (lexemes : List Lexeme) :
    (reading.shift bytes).remarksToEnd (position + bytes) unended lexemes =
      (reading.remarksToEnd position unended lexemes).map (·.shift bytes) := by
  induction lexemes generalizing reading position with
  | nil =>
    simp only [remarksToEnd_nil, lastRemarks, finish_shift, remarksAt_shift, List.map_append]
  | cons lexeme others ih =>
    cases lexeme with
    | stray c =>
      rw [remarksToEnd_stray, remarksToEnd_stray, Nat.add_right_comm, ih, remarksAt_shift,
        List.map_append]
    | token kind text =>
      have step := reading.step_shift bytes ⟨kind, text, position⟩
      simp only [Token.shift] at step
      rw [remarksToEnd_token, remarksToEnd_token, Nat.add_right_comm, step, ih]
      simp only [remarksAt_shift, List.map_append]

/-- The node that many bytes later and that many nodes behind. -/
def Node.shift (ids bytes : Nat) (node : Node) : Node :=
  { data := node.data.map (· + ids), position := node.position + bytes, length := node.length,
    parent := node.parent.map (· + ids) }

/-- The leaf of a later token is later. -/
theorem Token.node_shift (ids bytes : Nat) (parent : Option NodeId) (token : Token) :
    (token.shift bytes).node (parent.map (· + ids)) = (token.node parent).shift ids bytes := by
  have data : token.leaf.map (· + ids) = token.leaf := token.map_content _
  simp only [node, Node.shift, seed, data]
  rfl

namespace Statement

/-- A later statement has as many leaves. -/
@[simp] theorem length_leaves_shift (bytes : Nat) (statement : Statement) :
    (statement.shift bytes).leaves.length = statement.leaves.length := by
  cases statement <;> simp [shift, leaves]

/-- A later statement has a number that is as far behind as its first leaf. -/
theorem id_shift (ids bytes base : Nat) (statement : Statement) :
    (statement.shift bytes).id (base + ids) = statement.id base + ids := by
  rw [id, id, length_leaves_shift]
  exact Nat.add_right_comm ..

/-- The leaves of a later statement are later. -/
theorem leaves_shift (bytes : Nat) (statement : Statement) :
    (statement.shift bytes).leaves = statement.leaves.map (·.shift bytes) := by
  cases statement <;> rfl

/-- A later statement holds its leaves by numbers that are further behind. -/
theorem data_shift (ids bytes base : Nat) (statement : Statement) :
    (statement.shift bytes).data (base + ids) = (statement.data base).map (· + ids) := by
  cases statement with
  | label name stop => rfl
  | instruction target operands stop =>
    have numbers : List.range' (base + ids + 1) operands.length =
        (List.range' (base + 1) operands.length).map (· + ids) := by
      rw [Nat.add_right_comm, Nat.add_comm (base + 1)]
      simpa [Nat.add_comm] using (List.map_add_range' (a := ids) (base + 1) operands.length 1).symm
    simp [shift, data, NodeData.map, numbers]

/-- A later statement is as long. -/
theorem length_shift (bytes : Nat) (statement : Statement) :
    (statement.shift bytes).length = statement.length := by
  cases statement <;> simp only [shift, length, stop, start, Token.shift] <;> omega

/-- The nodes of a later statement are later and further behind. -/
theorem nodes_shift (ids bytes base : Nat) (parent : Option NodeId) (statement : Statement) :
    (statement.shift bytes).nodes (base + ids) (parent.map (· + ids)) =
      (statement.nodes base parent).map (·.shift ids bytes) := by
  have itself : (statement.shift bytes).node (base + ids) (parent.map (· + ids)) =
      (statement.node base parent).shift ids bytes := by
    have start : (statement.shift bytes).start = statement.start + bytes := by
      cases statement <;> rfl
    simp only [node, data_shift, length_shift, start, Node.shift]
  have leaf := Token.node_shift ids bytes (some (statement.id base))
  simp only [Option.map_some] at leaf
  simp only [nodes, leaves_shift, id_shift, itself, leaf, List.map_append, List.map_map,
    List.map_cons, List.map_nil, Function.comp_def]

end Statement

namespace Program

/-- Later statements have numbers that are further behind. -/
theorem idsFrom_shift (ids bytes base : Nat) (statements : List Statement) :
    idsFrom (base + ids) (statements.map (·.shift bytes)) =
      (idsFrom base statements).map (· + ids) := by
  induction statements generalizing base with
  | nil => rfl
  | cons statement others ih =>
    simp only [List.map_cons, idsFrom, Statement.id_shift]
    rw [Nat.add_right_comm _ ids 1, ih]

/-- The nodes of later statements are later and further behind. -/
theorem nodesFrom_shift (ids bytes base : Nat) (parent : Option NodeId)
    (statements : List Statement) :
    nodesFrom (base + ids) (parent.map (· + ids)) (statements.map (·.shift bytes)) =
      (nodesFrom base parent statements).map (·.shift ids bytes) := by
  induction statements generalizing base with
  | nil => rfl
  | cons statement others ih =>
    simp only [List.map_cons, nodesFrom, Statement.id_shift, Statement.nodes_shift,
      List.map_append]
    rw [Nat.add_right_comm _ ids 1, ih]

/-- Statements in two rows are numbered one after the other. -/
theorem idsFrom_append (base : Nat) (first second : List Statement) :
    idsFrom base (first ++ second) = idsFrom base first ++ idsFrom (base + count first) second := by
  induction first generalizing base with
  | nil => rfl
  | cons statement others ih =>
    simp only [List.cons_append, idsFrom, count, ih, Statement.id, ← Nat.add_assoc]

/-- The nodes of statements in two rows stand one after the other. -/
theorem nodesFrom_append (base : Nat) (parent : Option NodeId) (first second : List Statement) :
    nodesFrom base parent (first ++ second) =
      nodesFrom base parent first ++ nodesFrom (base + count first) parent second := by
  induction first generalizing base with
  | nil => rfl
  | cons statement others ih =>
    simp only [List.cons_append, nodesFrom, count, ih, Statement.id, ← Nat.add_assoc,
      List.append_assoc]

/-- Statements in two rows have the nodes of both. -/
theorem count_append (first second : List Statement) :
    count (first ++ second) = count first + count second := by
  induction first with
  | nil => simp [count]
  | cons statement others ih => simp only [List.cons_append, count, ih, Nat.add_assoc]

/-- Later statements have as many nodes. -/
theorem count_shift (bytes : Nat) (statements : List Statement) :
    count (statements.map (·.shift bytes)) = count statements := by
  induction statements with
  | nil => rfl
  | cons statement others ih => simp [count, ih]

end Program

end Assembly8085
