import Assembly8085.Proofs.Coverage

/-!
# Statements by themselves

What is cut out of a source from the start of a statement to its end is read as that statement
alone, whatever stands around it: the cuts fall between lexemes, and the tokens of the statement
complete it without an error in their order.
-/
namespace Assembly8085

namespace Lexeme

/-- Where a token stands among those of lexemes, its lexeme stands among the lexemes. -/
theorem exists_of_tokensFrom_eq {position : Nat} {lexemes : List Lexeme}
    {before after : List Token} {token : Token}
    (whole : tokensFrom position lexemes = before ++ token :: after) :
    ∃ earlier later, lexemes = earlier ++ .token token.kind token.text :: later ∧
      tokensFrom position earlier = before ∧ token.position = position + totalLength earlier ∧
      tokensFrom token.stop later = after := by
  induction lexemes generalizing position before with
  | nil =>
    rw [tokensFrom] at whole
    simp at whole
  | cons lexeme others ih =>
    cases lexeme with
    | stray c =>
      have rest : tokensFrom (position + c.utf8Size) others = before ++ token :: after := whole
      obtain ⟨earlier, later, rfl, front, place, behind⟩ := ih rest
      refine ⟨.stray c :: earlier, later, rfl, front, ?_, behind⟩
      rw [place, totalLength_cons, Nat.add_assoc]
      rfl
    | token kind text =>
      have rest : ⟨kind, text, position⟩ ::
          tokensFrom (position + Text.byteLength text) others = before ++ token :: after := whole
      cases before with
      | nil =>
        obtain ⟨rfl, rfl⟩ := List.cons.inj rest
        exact ⟨[], others, rfl, rfl, rfl, rfl⟩
      | cons first more =>
        obtain ⟨rfl, inside⟩ := List.cons.inj rest
        obtain ⟨earlier, later, rfl, front, place, behind⟩ := ih inside
        refine ⟨.token kind text :: earlier, later, rfl, ?_, ?_, behind⟩
        · exact congrArg (_ :: ·) front
        · rw [place, totalLength_cons, Nat.add_assoc]
          rfl

/-- Tokens in a row belong to lexemes in a row, from the first token to the last. -/
theorem exists_excerpt {position : Nat} {lexemes : List Lexeme} {before own after : List Token}
    {first last : Token} (whole : tokensFrom position lexemes = before ++ (own ++ after))
    (head : own.head? = some first) (final : own.getLast? = some last) :
    ∃ earlier middle later, lexemes = earlier ++ (middle ++ later) ∧
      tokensFrom first.position middle = own ∧ first.position = position + totalLength earlier ∧
      last.stop = first.position + totalLength middle := by
  obtain ⟨others, rfl⟩ := List.getLast?_eq_some_iff.mp final
  have upTo : tokensFrom position lexemes = (before ++ others) ++ last :: after := by
    simpa using whole
  obtain ⟨front, later, rfl, read, place, _⟩ := exists_of_tokensFrom_eq upTo
  have single : totalLength [.token last.kind last.text] = last.length := by
    simp [totalLength, text, Token.length]
  cases others with
  | nil =>
    obtain rfl : last = first := Option.some.inj head
    refine ⟨front, [.token last.kind last.text], later, by simp, rfl, place, ?_⟩
    rw [single]
    rfl
  | cons start more =>
    obtain rfl : start = first := Option.some.inj head
    obtain ⟨earlier, between, rfl, _, placeStart, inside⟩ := exists_of_tokensFrom_eq read
    rw [totalLength_append, totalLength_cons] at place
    have length : Text.byteLength (Lexeme.token start.kind start.text).text = start.length := rfl
    have stop : start.stop = start.position + start.length := rfl
    have reached : last.position = start.stop + totalLength between := by omega
    refine ⟨earlier, .token start.kind start.text :: (between ++ [.token last.kind last.text]),
      later, by simp, ?_, placeStart, ?_⟩
    · have behind : tokensFrom start.stop (between ++ [.token last.kind last.text]) =
          more ++ [last] := by
        rw [tokensFrom_append, inside, ← reached]
        rfl
      exact congrArg (start :: ·) behind
    · have lastStop : last.stop = last.position + last.length := rfl
      rw [totalLength_cons, totalLength_append, single]
      omega

/-- Lexemes in front of others are cut by longest match too. -/
theorem Munched.of_append_left {first second : List Lexeme}
    (munched : Munched (first ++ second)) : Munched first := by
  induction first with
  | nil => trivial
  | cons lexeme others ih =>
    obtain ⟨lawful, ends, behind⟩ := munched
    have inside := ih behind
    refine ⟨lawful, ?_, inside⟩
    cases others with
    | nil =>
      intro c head
      contradiction
    | cons next more =>
      have held : (next :: more).flatMap text ≠ [] := by
        simp [text_ne_nil_of_isLawful inside.1]
      have whole : lexeme.EndsBefore ((next :: more ++ second).flatMap text) := ends
      rw [List.flatMap_append] at whole
      exact (endsBefore_append held).mp whole

end Lexeme

namespace Reading

/-- Tokens in a row are read as one statement, which starts with the first and ends with the last
of them, and nothing is said about their order. -/
structure Makes (tokens : List Token) (statement : Statement) : Prop where
  /-- The statement starts with the first token. -/
  head : tokens.head? = some statement.head
  /-- It ends with the last one. -/
  last : ∃ last, tokens.getLast? = some last ∧ statement.stop = last.stop
  /-- No other statement is read. -/
  statements : betweenStatements.statements tokens = [statement]
  /-- No token is out of order. -/
  notices : betweenStatements.notices tokens = []
  /-- The end behind the tokens is not out of order. -/
  silent : (betweenStatements.advance tokens).finish.notice = none

/-- Tokens that complete a statement make it. -/
theorem Makes.of_passes {tokens : List Token} {statement : Statement}
    (head : tokens.head? = some statement.head)
    (last : ∃ last, tokens.getLast? = some last ∧ statement.stop = last.stop)
    (passes : betweenStatements.Passes tokens .betweenStatements [statement]) :
    Makes tokens statement where
  head := head
  last := last
  statements := by
    rw [statements_eq, passes.completed, passes.advance]
    rfl
  notices := passes.notices
  silent := by
    rw [passes.advance]
    rfl

/-- Tokens behind which the source may end make the statement that its end completes. -/
theorem Makes.of_finish {tokens : List Token} {statement : Statement} {reading : Reading}
    (head : tokens.head? = some statement.head)
    (last : ∃ last, tokens.getLast? = some last ∧ statement.stop = last.stop)
    (passes : betweenStatements.Passes tokens reading [])
    (complete : reading.finish.statement = some statement)
    (silent : reading.finish.notice = none) : Makes tokens statement where
  head := head
  last := last
  statements := by
    rw [statements_eq, passes.completed, passes.advance, complete]
    rfl
  notices := passes.notices
  silent := by rw [passes.advance, silent]

/-- The tokens up to the last leaf of an instruction whose line is at fault make it. -/
theorem Opened.exists_makes_keep {read : List Token} {reading : Reading} {draft : Draft}
    (opened : Opened read reading) (held : reading.draft? = some draft) :
    ∃ own behind, read = own ++ behind ∧ Makes own draft.keep := by
  obtain ⟨own, behind, after, rfl, last, passes, ending⟩ := opened.kept held
  have head : own.head? = some draft.target := by
    have front := (opened.leaves held).1
    cases own with
    | nil => contradiction
    | cons first others => exact front
  exact ⟨own, behind, rfl, .of_finish head ⟨_, last, rfl⟩ passes (by rw [ending])
    (by rw [ending])⟩

/-- Some of the tokens in a row make a statement that has an origin among them. -/
theorem Origin.exists_makes {tokens : List Token} {statement : Statement}
    (origin : Origin tokens statement) :
    ∃ before own after, tokens = before ++ (own ++ after) ∧ Makes own statement := by
  cases origin with
  | @label before spaces after colon draft whole start opened each mark =>
    have step : (afterTarget draft).step colon =
        ⟨.betweenStatements, some (.label draft.target colon.stop), none⟩ := by
      simp [step, mark, Step.complete]
    have passes := (opened.passes rfl).1.append (Passes.cons colon step (passes_nil _))
    refine ⟨before, draft.target :: spaces ++ [colon], after, by simp [whole], ?_⟩
    exact .of_passes rfl ⟨colon, List.getLast?_concat .., rfl⟩ passes
  | @ended before read after terminator reading draft whole start opened held mark =>
    by_cases faulty : (reading.isDiscarding || (reading.step terminator).notice.isSome) = true
    · obtain ⟨own, behind, rfl, makes⟩ := opened.exists_makes_keep held
      rw [faulty]
      exact ⟨before, own, behind ++ terminator :: after, by simp [whole], makes⟩
    · rw [Bool.not_eq_true] at faulty
      have step := step_of_terminator held mark
      rw [faulty] at step ⊢
      rw [Bool.or_eq_false_iff, Option.isSome_eq_false_iff, Option.isNone_iff_eq_none] at faulty
      rw [faulty.2] at step
      have passes := (opened.passes faulty.1).1.append
        (Passes.cons terminator step (passes_nil _))
      have head : (read ++ [terminator]).head? = some draft.target := by
        rw [List.head?_append, (opened.leaves held).1]
        rfl
      refine ⟨before, read ++ [terminator], after, by simp [whole], ?_⟩
      exact .of_passes head ⟨terminator, List.getLast?_concat .., rfl⟩ passes
  | @unended before read reading draft whole start opened held =>
    by_cases faulty : (reading.isDiscarding || reading.finish.notice.isSome) = true
    · obtain ⟨own, behind, rfl, makes⟩ := opened.exists_makes_keep held
      rw [faulty]
      exact ⟨before, own, behind, whole, makes⟩
    · rw [Bool.not_eq_true] at faulty
      have complete := finish_complete held
      rw [faulty] at complete ⊢
      rw [Bool.or_eq_false_iff, Option.isSome_eq_false_iff, Option.isNone_iff_eq_none] at faulty
      refine ⟨before, read, [], by simp [whole], ?_⟩
      exact .of_finish (opened.leaves held).1 (opened.exists_reach held faulty.1)
        (opened.passes faulty.1).1 complete faulty.2

end Reading

/-- Below two nodes, one of each tree, is the same: nodes of the same kind with the same text or
value and the same length, in the same order, and those in the second tree stand that many bytes
later. -/
inductive SyntaxTree.Matches (bytes : Nat) (first second : SyntaxTree) : NodeId → NodeId → Prop
  /-- Two nodes match if they hold the same and their children match one by one. -/
  | node {id there : NodeId} {early late : Node}
    (here : first.node id = .ok early) (other : second.node there = .ok late)
    (data : late.data.map (fun _ => ()) = early.data.map fun _ => ())
    (position : late.position = early.position + bytes) (length : late.length = early.length)
    (children :
      List.Forall₂ (Matches bytes first second) early.data.children late.data.children) :
    Matches bytes first second id there

namespace SyntaxTree

variable {bytes : Nat} {first second : SyntaxTree}

/-- The leaves of tokens match those of later tokens. -/
theorem forall₂_matches_leaves {tokens : List Token} {base late : NodeId}
    {parent other : Option NodeId} (here : first.HoldsAt base (tokens.map (·.node parent)))
    (there : second.HoldsAt late ((tokens.map (·.shift bytes)).map (·.node other))) :
    List.Forall₂ (Matches bytes first second) (List.range' base tokens.length)
      (List.range' late tokens.length) := by
  induction tokens generalizing base late with
  | nil => exact .nil
  | cons token others ih =>
    have childless : token.leaf.children = [] := token.children_content
    have leaf : Matches bytes first second base late := by
      apply Matches.node here.1 there.1 rfl rfl rfl
      change List.Forall₂ _ token.leaf.children token.leaf.children
      rw [childless]
      exact .nil
    exact .cons leaf (ih here.2 there.2)

/-- What is below a statement matches what is below a node of the later one. -/
theorem matches_statement {statement : Statement} {base late id : NodeId}
    {parent other : Option NodeId} (here : first.HoldsAt base (statement.nodes base parent))
    (there : second.HoldsAt late ((statement.shift bytes).nodes late other))
    (found : second.node id = .ok ((statement.shift bytes).node late other)) :
    Matches bytes first second (statement.id base) id := by
  obtain ⟨leaves, itself, _⟩ := Forest.holdsAt_append.mp here
  obtain ⟨lateLeaves, _⟩ := Forest.holdsAt_append.mp there
  rw [List.length_map] at itself
  rw [Statement.leaves_shift] at lateLeaves
  apply Matches.node itself found
  · cases statement with
    | label name stop => rfl
    | instruction target operands stop =>
      simp [Statement.node, Statement.shift, Statement.data, NodeData.map, List.map_const']
  · cases statement <;> rfl
  · exact statement.length_shift bytes
  · rw [Statement.node, Statement.node, Statement.children_data, Statement.children_data,
      Statement.length_leaves_shift]
    exact forall₂_matches_leaves leaves lateLeaves

end SyntaxTree

namespace Reading

/-- Where tokens make a statement, the same tokens earlier are read as that statement earlier. -/
theorem Makes.exists_of_shift {bytes : Nat} {tokens : List Token} {statement : Statement}
    (makes : Makes (tokens.map (·.shift bytes)) statement) :
    ∃ early : Statement, statement = early.shift bytes ∧
      betweenStatements.statements tokens = [early] ∧ betweenStatements.notices tokens = [] ∧
      (betweenStatements.advance tokens).finish.notice = none := by
  have later := betweenStatements.statements_shift bytes tokens
  have run := betweenStatements.run_shift bytes tokens
  have single := makes.statements
  have notices := makes.notices
  have silent := makes.silent
  have still : betweenStatements.shift bytes = betweenStatements := rfl
  rw [still] at later run
  rw [later, List.map_eq_singleton_iff] at single
  rw [run.2] at notices
  rw [run.1, finish_shift] at silent
  obtain ⟨early, alone, same⟩ := single
  exact ⟨early, same.symm, alone, notices, silent⟩

end Reading

/-- Nothing is told about the order of tokens if neither a token nor the end is out of order. -/
theorem isParsing_eq_false_of_silent {file : String} {source : List Char}
    (notices : Reading.betweenStatements.notices
      (Lexeme.tokensFrom 0 (Lexeme.ofText source)) = [])
    (silent : (Reading.betweenStatements.advance
      (Lexeme.tokensFrom 0 (Lexeme.ofText source))).finish.notice = none)
    {diagnostic : Diagnostic}
    (member : diagnostic ∈ (parseSource file source .debug).2.diagnostics.toList) :
    diagnostic.notice.isParsing = false := by
  have spans := span_filter_isParsing_remarksOn source
  rw [Reading.refused_eq, (Reading.rejected_eq_nil_iff _ _).mpr notices, silent] at spans
  have none : (remarksOn source).filter (·.notice.isParsing) = [] := List.map_eq_nil_iff.mp spans
  rw [diagnostics_parseSource] at member
  obtain ⟨remark, among, rfl⟩ := List.mem_map.mp member
  exact Bool.eq_false_iff.mpr (List.filter_eq_nil_iff.mp none remark among)

/-- The part of a source from the start of a statement to its stop is read as that statement
alone. -/
theorem Program.exists_slice {source : List Char} {statement : Statement}
    (member : statement ∈ (ofLexemes 0 (Lexeme.ofText source)).statements) :
    ∃ (bytes : Nat) (early : Statement) (part : List Char),
      statement = early.shift bytes ∧ bytes = statement.start ∧
      Text.slice? source statement.start statement.stop = some part ∧
      (ofLexemes 0 (Lexeme.ofText part)).statements = [early] ∧
      Reading.betweenStatements.notices (Lexeme.tokensFrom 0 (Lexeme.ofText part)) = [] ∧
      (Reading.betweenStatements.advance
        (Lexeme.tokensFrom 0 (Lexeme.ofText part))).finish.notice = none := by
  obtain ⟨before, own, after, whole, makes⟩ := (origin_of_mem member).exists_makes
  obtain ⟨last, final, stop⟩ := makes.last
  obtain ⟨earlier, middle, later, cut, same, place, reach⟩ :=
    Lexeme.exists_excerpt whole makes.head final
  have start := statement.start_eq
  -- The lexemes of the part are those of the source, since these are cut by longest match.
  have munched := Lexeme.munched_ofText source
  rw [cut] at munched
  have lexemes : Lexeme.ofText (middle.flatMap Lexeme.text) = middle :=
    Lexeme.ofText_flatMap (Lexeme.Munched.of_append munched).of_append_left
  have shifted := Lexeme.tokensFrom_shift statement.start 0 middle
  rw [Nat.zero_add, start, same] at shifted
  rw [shifted, ← start] at makes
  obtain ⟨early, late, single, notices, silent⟩ := makes.exists_of_shift
  have text := Lexeme.flatMap_text_ofText source
  rw [cut, List.flatMap_append, List.flatMap_append, ← List.append_assoc] at text
  have slice : Text.slice? source statement.start statement.stop =
      some (middle.flatMap Lexeme.text) := by
    rw [Text.slice?_eq_some_iff]
    refine ⟨_, _, text.symm, ?_, ?_⟩
    · rw [start, place, Nat.zero_add]
      rfl
    · rw [stop, reach, start]
      rfl
  rw [← lexemes] at single notices silent
  exact ⟨_, early, _, late, rfl, slice, single, notices, silent⟩

/-- Of the nodes of the tree of a source, those of its statements are statements. -/
theorem Program.exists_statement_of_node {source : List Char} {id : NodeId} {node : Node}
    (found : (ofLexemes 0 (Lexeme.ofText source)).grown.node id = .ok node)
    (kind : node.kind.isStatement = true) :
    let program := ofLexemes 0 (Lexeme.ofText source)
    ∃ statement ∈ program.statements, ∃ first : NodeId,
      program.grown.HoldsAt first (statement.nodes first (some program.root)) ∧
      node = statement.node first (some program.root) := by
  intro program
  rcases cases_of_node source found with
    rfl | ⟨statement, member, first, row, rfl | ⟨leaf, _, rfl⟩⟩
  · contradiction
  · exact ⟨statement, member, first, row, rfl⟩
  · have other := NodeKind.isStatement_eq_false (leaf.isExpression_kind_content (γ := NodeId))
    exact absurd kind (Bool.eq_false_iff.mp other)

/-- A statement is what the part of the source from its start to its stop reads as: alone that part
is one statement, whose nodes match those of the statement, and no token of it is out of order. -/
theorem parseSource_slice (file other : String) (source : List Char) :
    ∃ tree, (parseSource file source .debug).1 = .ok tree ∧
      ∀ id node, tree.node id = .ok node → node.kind.isStatement = true →
        ∃ part, Text.slice? source node.position node.stop = some part ∧
          (∀ diagnostic ∈ (parseSource other part .debug).2.diagnostics.toList,
            diagnostic.notice.isParsing = false) ∧
          ∃ alone only, (parseSource other part .debug).1 = .ok alone ∧
            alone.statements = [only] ∧
            SyntaxTree.Matches node.position alone tree only id := by
  let program := Program.ofLexemes 0 (Lexeme.ofText source)
  refine ⟨program.grown, fst_parseSource_debug file source, ?_⟩
  intro id node found kind
  obtain ⟨statement, member, first, row, rfl⟩ := Program.exists_statement_of_node found kind
  obtain ⟨bytes, early, part, rfl, start, slice, single, notices, silent⟩ :=
    Program.exists_slice member
  let alone := Program.ofLexemes 0 (Lexeme.ofText part)
  have stop := Statement.stop_node (Program.start_le_stop_of_mem_ofLexemes member) first
    (some program.root)
  refine ⟨part, ?_, fun diagnostic told => ?_, alone.grown, early.id 0,
    fst_parseSource_debug other part, ?_, ?_⟩
  · rw [stop]
    exact slice
  · exact isParsing_eq_false_of_silent notices silent told
  · rw [Program.statements_grown, single]
    rfl
  · have nodes := (Forest.holdsAt_append.mp (Forest.holdsAt_zero alone.nodes)).1
    rw [single] at nodes
    have here := (Forest.holdsAt_append.mp nodes).1
    change SyntaxTree.Matches (early.shift bytes).start _ _ _ _
    rw [← start]
    exact SyntaxTree.matches_statement here row found

end Assembly8085
