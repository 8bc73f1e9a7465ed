import Assembly8085.Proofs.Modes
import Assembly8085.Proofs.Shift

/-!
# Line by line

Where a line ends, nothing is carried over: the lexemes of two texts are those of the first and
those of the second, the reading is between statements again, and the first text has nothing to
say about its end. So a source is read as two sources would be that are cut at the end of a line,
and what is wrong in one of them has no influence on the other.
-/
namespace Assembly8085

/-- A text is empty or its last line is at its end, where a carriage return needs a text behind
it that does not start with a line feed. -/
def EndsLineBefore (text rest : List Char) : Prop :=
  text = [] ∨ text.getLast? = some '\n' ∨ (text.getLast? = some '\r' ∧ rest.head? ≠ some '\n')

namespace Lexeme

/-- No token goes on with a line break. -/
theorem continuesWith_of_isLineBreak {c : Char} (lineBreak : isLineBreak c = true)
    (kind : TokenKind) : kind.continuesWith c = false := by
  simp only [isLineBreak, Bool.or_eq_true, decide_eq_true_eq] at lineBreak
  rcases lineBreak with rfl | rfl <;> cases kind <;> decide

/-- A line break stands in terminators only. -/
theorem kind?_of_isLineBreak {lexeme : Lexeme} (lawful : lexeme.isLawful = true) {c : Char}
    (member : c ∈ lexeme.text) (lineBreak : isLineBreak c = true) :
    lexeme.kind? = some .terminator := by
  cases lexeme with
  | stray other =>
    obtain rfl := List.mem_singleton.mp member
    simp [isLawful, startedBy?_of_isLineBreak lineBreak] at lawful
  | token kind characters =>
    cases characters with
    | nil => contradiction
    | cons first more =>
      simp only [isLawful, Bool.and_eq_true, Bool.or_eq_true, beq_iff_eq] at lawful
      obtain ⟨starts, run | ⟨rfl, _⟩⟩ := lawful
      · rcases List.mem_cons.mp member with rfl | behind
        · exact starts.symm.trans (startedBy?_of_isLineBreak lineBreak)
        · have continued := List.all_eq_true.mp run c behind
          rw [continuesWith_of_isLineBreak lineBreak] at continued
          contradiction
      · exact congrArg some (eq_terminator_of_startedBy? starts)

/-- The last character of a text is the last one of its last lexeme. -/
theorem getLast?_ofText {source : List Char} {c : Char} (last : source.getLast? = some c) :
    ∃ before lexeme, ofText source = before ++ [lexeme] ∧ lexeme.text.getLast? = some c := by
  have whole := flatMap_text_ofText source
  have munched := munched_ofText source
  rcases List.eq_nil_or_concat (ofText source) with none | ⟨before, lexeme, same⟩
  · rw [none] at whole
    rw [← whole] at last
    contradiction
  · rw [List.concat_eq_append] at same
    refine ⟨before, lexeme, same, ?_⟩
    have member : lexeme ∈ ofText source := by simp [same]
    have held := text_ne_nil_of_isLawful (isLawful_of_mem munched member)
    rw [← whole, same, List.flatMap_append] at last
    simpa [List.getLast?_append, held] using last

/-- The last lexeme of a text whose last line is at its end is a terminator, and it ends
there. -/
theorem terminator_of_endsLineBefore {first second : List Char} (nonempty : first ≠ [])
    (ends : EndsLineBefore first second) :
    ∃ before characters, ofText first = before ++ [.token .terminator characters] ∧
      (Lexeme.token .terminator characters).EndsBefore second := by
  obtain ⟨c, last, lineBreak, same⟩ : ∃ c, first.getLast? = some c ∧ isLineBreak c = true ∧
      (c = '\r' → second.head? ≠ some '\n') := by
    rcases ends with rfl | last | ⟨last, other⟩
    · contradiction
    · exact ⟨_, last, by decide, fun wrong => absurd wrong (by decide)⟩
    · exact ⟨_, last, by decide, fun _ => other⟩
  obtain ⟨before, lexeme, cut, final⟩ := getLast?_ofText last
  have member : lexeme ∈ ofText first := by simp [cut]
  have lawful := isLawful_of_mem (munched_ofText first) member
  have kind := kind?_of_isLineBreak lawful (List.mem_of_getLast? final) lineBreak
  cases lexeme with
  | stray other => contradiction
  | token other characters =>
    obtain rfl : other = .terminator := Option.some.inj kind
    refine ⟨before, characters, cut, ?_⟩
    intro next head
    simp only [goesOn, Bool.and_eq_false_iff, beq_eq_false_iff_ne]
    by_cases alone : characters = ['\r']
    · subst alone
      obtain rfl : '\r' = c := Option.some.inj final
      right
      rintro rfl
      exact same rfl head
    · exact .inl alone

/-- The lexemes of two texts are those of the first and those of the second where the first ends
its last line. -/
theorem ofText_append_of_endsLineBefore {first second : List Char}
    (ends : EndsLineBefore first second) :
    ofText (first ++ second) = ofText first ++ ofText second := by
  by_cases empty : first = []
  · subst empty
    simp [ofText]
  obtain ⟨before, characters, cut, stops⟩ := terminator_of_endsLineBefore empty ends
  have munched := munched_append (munched_ofText first) (munched_ofText second) (by
    intro last same
    rw [cut, List.getLast?_concat] at same
    rw [flatMap_text_ofText, ← Option.some.inj same]
    exact stops)
  have whole := ofText_flatMap munched
  rwa [List.flatMap_append, flatMap_text_ofText, flatMap_text_ofText] at whole

end Lexeme

namespace Reading

/-- A terminator ends whatever was read of its line. -/
theorem step_terminator (reading : Reading) {token : Token}
    (terminator : token.kind = .terminator) :
    (reading.step token).reading = .betweenStatements := by
  cases reading <;> simp [step, terminator, Step.onward, Step.complete, Step.refuse,
    TokenKind.isTrivia]

/-- The reading is between statements behind a text that ends its last line. -/
theorem advance_of_endsLineBefore {first second : List Char} (ends : EndsLineBefore first second)
    (position : Nat) :
    betweenStatements.advance (Lexeme.tokensFrom position (Lexeme.ofText first)) =
      .betweenStatements := by
  by_cases empty : first = []
  · subst empty
    simp [Lexeme.ofText, Lexeme.tokensFrom]
  obtain ⟨before, characters, cut, _⟩ := Lexeme.terminator_of_endsLineBefore empty ends
  rw [cut, Lexeme.tokensFrom_append, advance_append]
  exact step_terminator _ rfl

/-- The remarks on two rows of lexemes are those on the first and then those on the second, if
the end of the first is not remarked on. -/
theorem remarksToEnd_append (reading : Reading) (position : Nat) (unended : Bool)
    (first second : List Lexeme) :
    reading.remarksToEnd position unended (first ++ second) =
      reading.remarks position first ++
        (reading.advance (Lexeme.tokensFrom position first)).remarksToEnd
          (position + Lexeme.totalLength first) unended second := by
  induction first generalizing reading position with
  | nil => simp [remarks, Lexeme.tokensFrom, Lexeme.totalLength]
  | cons lexeme others ih =>
    rw [Lexeme.totalLength_cons, ← Nat.add_assoc]
    cases lexeme with
    | stray c =>
      rw [List.cons_append, remarksToEnd_stray, ih]
      simp [remarks, Lexeme.notice?, Lexeme.kind?, Lexeme.text, Lexeme.tokensFrom]
    | token kind text =>
      rw [List.cons_append, remarksToEnd_token, ih]
      simp [remarks, Lexeme.kind?, Lexeme.text, Lexeme.tokensFrom]

end Reading

/-- A text that ends its last line has an ended last line. -/
theorem isUnended_of_endsLineBefore {first second : List Char}
    (ends : EndsLineBefore first second) : isUnended first = false := by
  rcases ends with rfl | last | ⟨last, _⟩
  · rfl
  · simp [isUnended, last, isLineBreak]
  · simp [isUnended, last, isLineBreak]

/-- Only the end of a text counts for whether its last line has an end. -/
theorem isUnended_append_of_ne_nil (first : List Char) {second : List Char} (held : second ≠ []) :
    isUnended (first ++ second) = isUnended second := by
  cases second with
  | nil => contradiction
  | cons c more => simp [isUnended, List.getLast?_append, List.getLast?_cons]

/-- Whether two texts end their last line is up to the second if the first ends its own. -/
theorem isUnended_append {first second : List Char} (ends : EndsLineBefore first second) :
    isUnended (first ++ second) = isUnended second := by
  by_cases empty : second = []
  · rw [empty, List.append_nil, isUnended_of_endsLineBefore ends]
    rfl
  · exact isUnended_append_of_ne_nil first empty

/-- The statements of two texts are those of the first and, later, those of the second. -/
theorem statements_ofLexemes_append {first second : List Char}
    (ends : EndsLineBefore first second) :
    (Program.ofLexemes 0 (Lexeme.ofText (first ++ second))).statements =
      (Program.ofLexemes 0 (Lexeme.ofText first)).statements ++
        (Program.ofLexemes 0 (Lexeme.ofText second)).statements.map
          (·.shift (Text.byteLength first)) := by
  have later := Reading.statements_shift (Text.byteLength first) .betweenStatements
    (Lexeme.tokensFrom 0 (Lexeme.ofText second))
  rw [← Lexeme.tokensFrom_shift] at later
  have here := Reading.statements_eq .betweenStatements
    (Lexeme.tokensFrom 0 (Lexeme.ofText first))
  rw [Reading.advance_of_endsLineBefore ends] at here
  simp only [Program.ofLexemes]
  rw [Lexeme.ofText_append_of_endsLineBefore ends, Lexeme.tokensFrom_append,
    Lexeme.totalLength_ofText, Reading.statements_append, Reading.advance_of_endsLineBefore ends,
    here, ← later]
  simp [Reading.finish, Reading.shift]

/-- The remarks on two texts are those on the first and, later, those on the second. -/
theorem remarksOn_append {first second : List Char} (ends : EndsLineBefore first second) :
    remarksOn (first ++ second) =
      remarksOn first ++ (remarksOn second).map (·.shift (Text.byteLength first)) := by
  have later := Reading.remarksToEnd_shift (Text.byteLength first) 0 (isUnended second)
    .betweenStatements (Lexeme.ofText second)
  have behind := Reading.advance_of_endsLineBefore ends 0
  -- Between statements the end of a source is not remarked on if its last line is at its end.
  have here : remarksOn first = Reading.betweenStatements.remarks 0 (Lexeme.ofText first) := by
    rw [remarksOn, Reading.remarksToEnd, behind, isUnended_of_endsLineBefore ends]
    exact List.append_nil _
  rw [here]
  simp only [remarksOn, isUnended_append ends]
  rw [Lexeme.ofText_append_of_endsLineBefore ends, Reading.remarksToEnd_append, behind,
    Lexeme.totalLength_ofText, ← later]
  rfl

/-- The node with another parent in the place of one. -/
def Node.reparent (before after : NodeId) (node : Node) : Node :=
  { node with parent := node.parent.map fun parent => if parent = before then after else parent }

/-- The nodes of a tree other than its root, in order. -/
def SyntaxTree.branches (tree : SyntaxTree) : List Node := tree.nodes.toList.eraseIdx tree.root

/-- The diagnostic that many bytes later. -/
def Diagnostic.shift (bytes : Nat) (diagnostic : Diagnostic) : Diagnostic :=
  { diagnostic with
    location := diagnostic.location.map fun location =>
      { location with position := location.position + bytes } }

namespace Program

/-- The root is the last node. -/
theorem size_nodes_grown (program : Program) :
    program.grown.nodes.size = program.grown.root + 1 := by
  simp [grown, nodes, root]

/-- The nodes of a program other than its root are those of its statements. -/
theorem branches_grown (program : Program) :
    program.grown.branches = nodesFrom 0 (some program.root) program.statements := by
  simp [SyntaxTree.branches, grown, Forest.ofList, nodes, root, List.eraseIdx_append_of_length_le]

/-- The root holds the statements. -/
theorem node_root_grown (program : Program) :
    program.grown.node program.grown.root = .ok program.node := by
  have found := Forest.node_ofList (nodesFrom 0 (some program.root) program.statements) []
    program.node
  rw [length_nodesFrom] at found
  exact found

/-- The statements of the tree of a program are those of the program. -/
theorem statements_grown (program : Program) :
    program.grown.statements = idsFrom 0 program.statements := by
  simp [SyntaxTree.statements, node_root_grown, node]

/-- The nodes of statements get another parent if the old one is behind all of them. -/
theorem nodesFrom_reparent (base before after : Nat) (statements : List Statement)
    (behind : base + count statements ≤ before) :
    nodesFrom base (some after) statements =
      (nodesFrom base (some before) statements).map (·.reparent before after) := by
  induction statements generalizing base with
  | nil => rfl
  | cons statement others ih =>
    simp only [count] at behind
    have below : base + statement.leaves.length < before := by omega
    have other : statement.id base ≠ before := Nat.ne_of_lt below
    have leaf (token : Token) : (token.node (some (statement.id base))).reparent before after =
        token.node (some (statement.id base)) := by
      simp [Token.node, Node.reparent, other]
    have itself : (statement.node base (some before)).reparent before after =
        statement.node base (some after) := by
      simp [Statement.node, Node.reparent]
    have later := ih (statement.id base + 1) (by simp only [Statement.id]; omega)
    simp only [nodesFrom, Statement.nodes, List.map_append, List.map_map, Function.comp_def, leaf,
      List.map_cons, itself, List.map_nil, later]

end Program

/-- Two texts of which the first ends its last line are read as one after the other: the nodes
and the diagnostics are those of the first, then those of the second, which are later and further
behind, and one root holds the statements of both. -/
theorem parseSource_append (file : String) (first second : List Char)
    (ends : EndsLineBefore first second) :
    ∃ front back whole : SyntaxTree,
      (parseSource file first .debug).1 = .ok front ∧
      (parseSource file second .debug).1 = .ok back ∧
      (parseSource file (first ++ second) .debug).1 = .ok whole ∧
      whole.branches =
        front.branches.map (·.reparent front.root whole.root) ++
          back.branches.map (·.shift (front.nodes.size - 1) (Text.byteLength first)) ∧
      whole.nodes.size = whole.root + 1 ∧
      whole.node whole.root = .ok
        { data := .source (front.statements ++ back.statements.map (· + (front.nodes.size - 1))),
          position := 0, length := Text.byteLength (first ++ second), parent := none } ∧
      (parseSource file (first ++ second) .debug).2.diagnostics.toList =
        (parseSource file first .debug).2.diagnostics.toList ++
          (parseSource file second .debug).2.diagnostics.toList.map
            (·.shift (Text.byteLength first)) := by
  let front := Program.ofLexemes 0 (Lexeme.ofText first)
  let back := Program.ofLexemes 0 (Lexeme.ofText second)
  let whole := Program.ofLexemes 0 (Lexeme.ofText (first ++ second))
  have statements : whole.statements =
      front.statements ++ back.statements.map (·.shift (Text.byteLength first)) :=
    statements_ofLexemes_append ends
  have root : whole.root = back.root + front.root := by
    simp only [Program.root, statements, Program.count_append, Program.count_shift]
    exact Nat.add_comm ..
  have frontRoot : Program.count front.statements = front.root := rfl
  have size : front.grown.nodes.size - 1 = front.root := by
    rw [Program.size_nodes_grown]
    rfl
  refine ⟨front.grown, back.grown, whole.grown, fst_parseSource_debug file first,
    fst_parseSource_debug file second, fst_parseSource_debug file (first ++ second), ?_,
    whole.size_nodes_grown, ?_, ?_⟩
  · have behind : 0 + Program.count front.statements ≤ front.root :=
      Nat.le_of_eq (Nat.zero_add _)
    have here := Program.nodesFrom_reparent 0 front.root whole.root front.statements behind
    have later := Program.nodesFrom_shift front.root (Text.byteLength first) 0 (some back.root)
      back.statements
    rw [Option.map_some, ← root] at later
    rw [size, Program.branches_grown, Program.branches_grown, Program.branches_grown, statements,
      Program.nodesFrom_append, frontRoot, here, later]
    rfl
  · have later := Program.idsFrom_shift front.root (Text.byteLength first) 0 back.statements
    have stop : whole.stop = Text.byteLength (first ++ second) := by
      simp only [whole, Program.ofLexemes, Lexeme.totalLength_ofText, Nat.zero_add]
    rw [Program.node_root_grown, Program.node, statements, Program.idsFrom_append, frontRoot,
      later, stop, size, Program.statements_grown, Program.statements_grown]
  · simp only [diagnostics_parseSource, remarksOn_append ends, List.map_append, List.map_map]
    rfl

/-- A line that ends with a lone carriage return and breaks off behind a comma, in front of a line
without an end. -/
theorem parseSource_append_truncated :
    EndsLineBefore "mvi b,\r".toList "hlt".toList ∧
    ∃ front back whole : SyntaxTree,
      (parseSource "a" "mvi b,\r".toList .debug).1 = .ok front ∧
      (parseSource "a" "hlt".toList .debug).1 = .ok back ∧
      (parseSource "a" ("mvi b,\r".toList ++ "hlt".toList) .debug).1 = .ok whole ∧
      whole.branches =
        front.branches.map (·.reparent front.root whole.root) ++
          back.branches.map
            (·.shift (front.nodes.size - 1) (Text.byteLength "mvi b,\r".toList)) ∧
      whole.nodes.size = whole.root + 1 ∧
      whole.node whole.root = .ok
        { data := .source (front.statements ++ back.statements.map (· + (front.nodes.size - 1))),
          position := 0, length := Text.byteLength ("mvi b,\r".toList ++ "hlt".toList),
          parent := none } ∧
      (parseSource "a" ("mvi b,\r".toList ++ "hlt".toList) .debug).2.diagnostics.toList =
        (parseSource "a" "mvi b,\r".toList .debug).2.diagnostics.toList ++
          (parseSource "a" "hlt".toList .debug).2.diagnostics.toList.map
            (·.shift (Text.byteLength "mvi b,\r".toList)) := by
  have ends : EndsLineBefore "mvi b,\r".toList "hlt".toList :=
    .inr (.inr ⟨by decide, by decide⟩)
  exact ⟨ends, parseSource_append "a" _ _ ends⟩

end Assembly8085
