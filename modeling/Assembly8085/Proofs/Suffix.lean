import Assembly8085.Proofs.Composition
import Assembly8085.Proofs.Histories
import Assembly8085.Proofs.Outcomes

/-!
# Reading what is ahead

A parse reads what is ahead of a session. Whatever was asked of the session before, the same comes
of it as of a fresh session on the text ahead, at offsets that are larger by what is behind; nothing
else that the session holds has an influence. There is one exception: where nothing is ahead and the
end was never handed out, the last line may still be worth a note.
-/
namespace Assembly8085

/-- The tree of a text as that of a longer one which the text is the end of: all nodes stand that
many bytes later, but for the root, which reaches from the start to the end. -/
def SyntaxTree.relocate (bytes stop : Nat) (tree : SyntaxTree) : SyntaxTree :=
  { tree with
    nodes := tree.nodes.mapIdx fun id node =>
      if id = tree.root then { node with position := 0, length := stop }
      else { node with position := node.position + bytes } }

/-- Whether an entry of the log tells that the end of the source was handed out. -/
def Log.Event.tellsEnd : Log.Event → Bool
  | .surfaced token => token.kind = .endOfFile
  | _ => false

/-- Whether the end of the source was ever handed out. -/
def Session.hasEnded (session : Session) : Bool := session.log.any Log.Event.tellsEnd

namespace Move

/-- What happens does not depend on where the lexemes stand. -/
theorem readingFrom_shift (bytes position : Nat) (reading : Reading) (ahead : List Lexeme) :
    readingFrom (reading.shift bytes) (position + bytes) ahead =
      readingFrom reading position ahead := by
  induction ahead generalizing reading position with
  | nil => rw [readingFrom, readingFrom, Reading.finish_shift]
  | cons lexeme others ih =>
    have later (behind : Reading) :
        readingFrom (behind.shift bytes) (position + bytes + Text.byteLength lexeme.text) others =
          readingFrom behind (position + Text.byteLength lexeme.text) others := by
      rw [Nat.add_right_comm]
      exact ih (position + Text.byteLength lexeme.text) behind
    cases lexeme with
    | stray c => exact congrArg (taking (.stray c) ++ ·) (later reading)
    | token kind text =>
      have step := reading.step_shift bytes ⟨kind, text, position⟩
      simp only [Token.shift] at step
      simp only [readingFrom, Lexeme.kind?, Lexeme.text] at later ⊢
      rw [step, later]

/-- A parse brings up the same wherever the lexemes stand. -/
theorem parsing_eq (position : Nat) (ahead : List Lexeme) :
    parsing position ahead = parsing 0 ahead := by
  have same := readingFrom_shift position 0 .betweenStatements ahead
  rw [Nat.zero_add] at same
  rw [parsing, parsing, ← same]
  rfl

/-- Moves that take the lexemes ahead in order, and that hand out the end of the source where it is
met, behind all lexemes, and nowhere else. -/
inductive Orderly : (ahead : List Lexeme) → List Move → Prop
  /-- Nothing happens. -/
  | done {ahead : List Lexeme} : Orderly ahead []
  /-- The next lexeme is taken. -/
  | take {lexeme : Lexeme} {ahead : List Lexeme} {others : List Move}
    (behind : Orderly ahead others) : Orderly (lexeme :: ahead) (.take lexeme :: others)
  /-- A notice comes up. -/
  | report {ahead : List Lexeme} {notice : Notice} {others : List Move}
    (behind : Orderly ahead others) : Orderly ahead (.report notice :: others)
  /-- A token of a source is handed out. -/
  | surface {ahead : List Lexeme} {kind : TokenKind} {others : List Move}
    (inside : kind ≠ .endOfFile) (behind : Orderly ahead others) :
    Orderly ahead (.surface kind :: others)
  /-- The end is met and handed out. -/
  | ending {others : List Move} (behind : Orderly [] others) : Orderly [] (Move.ending ++ others)
  /-- The number of errors is told. -/
  | summarize {ahead : List Lexeme} {errors : Nat} {others : List Move}
    (behind : Orderly ahead others) : Orderly ahead (.summarize errors :: others)

/-- A notice may be brought up, or none. -/
theorem Orderly.reports {ahead : List Lexeme} {others : List Move} (behind : Orderly ahead others)
    (notice : Option Notice) : Orderly ahead (Move.reports notice ++ others) := by
  cases notice with
  | none => exact behind
  | some notice => exact .report behind

/-- A lexeme may be taken with what it gives rise to say. -/
theorem Orderly.taking {ahead : List Lexeme} {others : List Move} (behind : Orderly ahead others)
    (lexeme : Lexeme) : Orderly (lexeme :: ahead) (Move.taking lexeme ++ others) :=
  .take (behind.reports lexeme.notice?)

/-- A scan is orderly. -/
theorem orderly_scanning (skipTrivia : Bool) {ahead : List Lexeme}
    (lawful : ∀ lexeme ∈ ahead, lexeme.isLawful = true) :
    Orderly ahead (scanning skipTrivia ahead) := by
  induction ahead with
  | nil => exact .ending .done
  | cons lexeme others ih =>
    have later := ih fun other member => lawful other (List.mem_cons_of_mem lexeme member)
    rw [scanning]
    apply Orderly.taking
    cases lexeme with
    | stray c => exact later
    | token kind text =>
      have inside := Lexeme.kind_ne_endOfFile (lawful _ (List.mem_cons_self ..))
      simp only [Lexeme.kind?]
      split
      · exact later
      · exact .surface inside .done

/-- A reading is orderly if what comes behind it is. -/
theorem orderly_readingFrom (reading : Reading) (position : Nat) {ahead : List Lexeme}
    (lawful : ∀ lexeme ∈ ahead, lexeme.isLawful = true) {last : List Move}
    (behind : Orderly [] last) : Orderly ahead (readingFrom reading position ahead ++ last) := by
  induction ahead generalizing reading position with
  | nil =>
    have again : Orderly [] ((if reading.finish.discards then ending else []) ++ last) := by
      split
      · exact .ending behind
      · exact behind
    simp only [readingFrom, List.append_assoc]
    exact .ending (again.reports _)
  | cons lexeme others ih =>
    have later (reading : Reading) (position : Nat) :=
      ih reading position fun other member => lawful other (List.mem_cons_of_mem lexeme member)
    rw [readingFrom, List.append_assoc]
    apply Orderly.taking
    cases lexeme with
    | stray c => exact later _ _
    | token kind text =>
      have inside := Lexeme.kind_ne_endOfFile (lawful _ (List.mem_cons_self ..))
      simp only [Lexeme.kind?, List.cons_append, List.append_assoc]
      exact .surface inside ((later _ _).reports _)

/-- A parse is orderly. -/
theorem orderly_parsing (position : Nat) {ahead : List Lexeme}
    (lawful : ∀ lexeme ∈ ahead, lexeme.isLawful = true) :
    Orderly ahead (parsing position ahead) := by
  apply orderly_readingFrom _ _ lawful
  split
  · exact .summarize .done
  · exact .done

end Move

namespace Session

/-- The end of the source is met exactly if it was handed out, and then nothing is ahead. -/
structure Settled (session : Session) : Prop where
  /-- The end is met if it was handed out. -/
  ended : session.endReached = session.hasEnded
  /-- Nothing is ahead where the end is met. -/
  met : session.endReached = true → session.ahead = []

/-- Nothing changes by an event that does not tell that the end was handed out. -/
theorem Settled.write {session : Session} (settled : session.Settled) {event : Log.Event}
    (other : event.tellsEnd = false) : (session.write event).Settled := by
  refine ⟨?_, settled.met⟩
  change session.endReached = (session.log.push event).any _
  rw [Array.any_push, other, Bool.or_false]
  exact settled.ended

/-- Nothing changes by a token of a source that is handed out. -/
theorem Settled.surface {session : Session} (settled : session.Settled) {kind : TokenKind}
    (inside : kind ≠ .endOfFile) : (session.surface kind).Settled := by
  unfold Session.surface
  apply Settled.write
  · exact ⟨settled.ended, settled.met⟩
  · simp [Log.Event.tellsEnd, currentToken, inside]

/-- A notice is written down. -/
theorem log_bringUp (session : Session) (notice : Notice) :
    (session.bringUp notice).log =
      session.log.push (.reported (session.format (session.diagnose notice))) := by
  unfold bringUp
  split <;> rfl

/-- Nothing changes by a notice. -/
theorem Settled.bringUp {session : Session} (settled : session.Settled) (notice : Notice) :
    (session.bringUp notice).Settled := by
  obtain ⟨diagnostics, log, same⟩ := session.exists_bringUp_eq notice
  have endReached : (session.bringUp notice).endReached = session.endReached := by rw [same]
  have ahead : (session.bringUp notice).ahead = session.ahead := by rw [same]
  refine ⟨?_, ?_⟩
  · rw [endReached, settled.ended, hasEnded, hasEnded, log_bringUp]
    simp [Log.Event.tellsEnd]
  · rw [endReached, ahead]
    exact settled.met

/-- The end may be met and handed out where nothing is ahead. -/
theorem settled_ending {session : Session} (none : session.ahead = []) :
    (Move.ending.foldl act session).Settled := by
  have ending : Move.ending.foldl act session = session.meetEnd.surface .endOfFile := rfl
  obtain ⟨diagnostics, log, met⟩ := session.exists_meetEnd_eq
  refine ⟨?_, fun _ => ?_⟩
  · rw [ending, met]
    simp [hasEnded, surface, Session.write, Log.Event.tellsEnd, currentToken]
  · rw [ending, met]
    exact none

/-- A session that lives through orderly moves knows whether the end was handed out. -/
theorem Settled.live {session : Session} (settled : session.Settled) {moves : List Move}
    (orderly : Move.Orderly session.ahead moves) : (session.live moves).2.Settled := by
  generalize same : session.ahead = ahead at orderly
  induction orderly generalizing session with
  | done => exact settled
  | @take lexeme ahead others behind ih =>
    have taken : (session.take lexeme).Settled := by
      refine ⟨settled.ended, fun met => ?_⟩
      have none := settled.met met
      rw [same] at none
      contradiction
    have left : (session.take lexeme).ahead = ahead := congrArg List.tail same
    rw [live_take]
    exact ih taken left
  | @report ahead notice others behind ih =>
    have noted := settled.bringUp notice
    rw [Session.live]
    split
    · exact noted
    · exact ih noted ((bringUp_frame session notice).2.1.trans same)
  | @surface ahead kind others inside behind ih =>
    rw [live_cons _ rfl]
    exact ih (settled.surface inside) same
  | @ending others behind ih =>
    have left : (Move.ending.foldl act session).ahead = [] :=
      (session.ahead_act .meetEnd).trans same
    rw [live_ending_append]
    exact ih (settled_ending same) left
  | summarize behind ih =>
    rw [live_cons _ rfl]
    exact ih (settled.write rfl) same

/-- A fresh session has not met its end. -/
theorem settled_ofSource (file : String) (source : List Char) (mode : Mode) :
    (ofSource file source mode).Settled :=
  ⟨by simp [ofSource, hasEnded, Log.Event.tellsEnd], nofun⟩

/-- The moves of a call are orderly. -/
theorem Placed.orderly_moves {session : Session} (placed : session.Placed) (call : Call) :
    Move.Orderly session.ahead (session.moves call) := by
  cases call with
  | scan => exact Move.orderly_scanning _ placed.lawful
  | setSkipTrivia skipTrivia => exact .done
  | report notice => exact .report .done
  | readTree | parse => exact Move.orderly_parsing _ placed.lawful

/-- Whatever was asked of a session, it knows whether the end was handed out. -/
theorem settled_after {session : Session} (placed : session.Placed) (settled : session.Settled)
    (calls : List Call) : (session.after calls).Settled := by
  induction calls generalizing session with
  | nil => exact settled
  | cons call others ih =>
    obtain ⟨skipTrivia, tree, left⟩ := session.snd_perform call
    have lived := settled.live (placed.orderly_moves call)
    have performed : (session.perform call).2.Settled := by
      rw [left]
      exact ⟨lived.ended, lived.met⟩
    exact ih (placed.perform call) performed

end Session

/-- Nodes that keep their numbers hold the same. -/
theorem Node.shift_zero (bytes : Nat) (node : Node) :
    node.shift 0 bytes = { node with position := node.position + bytes } := by
  have data : node.data.map (· + 0) = node.data := by
    cases node.data <;> simp [NodeData.map]
  have parent : node.parent.map (· + 0) = node.parent := Option.map_id'
  rw [shift, data, parent]

namespace Program

/-- The statements of later lexemes are later. -/
theorem statements_ofLexemes (bytes : Nat) (lexemes : List Lexeme) :
    (ofLexemes bytes lexemes).statements =
      (ofLexemes 0 lexemes).statements.map (·.shift bytes) := by
  have later := Lexeme.tokensFrom_shift bytes 0 lexemes
  rw [Nat.zero_add] at later
  change Reading.betweenStatements.statements (Lexeme.tokensFrom bytes lexemes) = _
  rw [later]
  exact Reading.betweenStatements.statements_shift bytes (Lexeme.tokensFrom 0 lexemes)

/-- The tree of later lexemes is that of the lexemes, later. -/
theorem grown_ofLexemes (bytes : Nat) (lexemes : List Lexeme) :
    (ofLexemes bytes lexemes).grown =
      (ofLexemes 0 lexemes).grown.relocate bytes (bytes + Lexeme.totalLength lexemes) := by
  have statements := statements_ofLexemes bytes lexemes
  let early := ofLexemes 0 lexemes
  have root : (ofLexemes bytes lexemes).root = early.root := by
    rw [Program.root, statements, count_shift]
    rfl
  have ids : idsFrom 0 (ofLexemes bytes lexemes).statements = idsFrom 0 early.statements := by
    have same := idsFrom_shift 0 bytes 0 early.statements
    rw [← statements] at same
    simpa using same
  have branches : nodesFrom 0 (some early.root) (ofLexemes bytes lexemes).statements =
      (nodesFrom 0 (some early.root) early.statements).map
        fun node => { node with position := node.position + bytes } := by
    have same : nodesFrom 0 (some early.root) (early.statements.map (·.shift bytes)) = _ :=
      nodesFrom_shift 0 bytes 0 (some early.root) early.statements
    rw [← statements] at same
    simpa only [Node.shift_zero] using same
  -- The root is behind all other nodes, so that none of them is taken for it.
  have others (move rooted : Node → Node) :
      (nodesFrom 0 (some early.root) early.statements).mapIdx
          (fun id node => if id = early.root then rooted node else move node) =
        (nodesFrom 0 (some early.root) early.statements).map move := by
    apply List.ext_getElem (by simp)
    intro id inside _
    have front : id ≠ early.root := by
      rw [List.length_mapIdx, length_nodesFrom] at inside
      exact Nat.ne_of_lt inside
    simp [front]
  have nodes : (ofLexemes bytes lexemes).nodes =
      early.nodes.mapIdx fun id node =>
        if id = early.root then
          { node with position := 0, length := bytes + Lexeme.totalLength lexemes }
        else { node with position := node.position + bytes } := by
    rw [Program.nodes, Program.nodes, List.mapIdx_concat, others, root, branches, node, ids,
      length_nodesFrom]
    simp only [Program.root, if_true, node]
    rfl
  simp only [grown, SyntaxTree.relocate, Forest.ofList, nodes, root, List.mapIdx_toArray]
  rfl

end Program

namespace Session

/-- How far a session comes depends on how it treats notices alone, and so does what it fails
with. -/
theorem fst_live_congr {first second : Session} (same : first.mode = second.mode)
    (lineless : first.Lineless) (linelessToo : second.Lineless) (moves : List Move) :
    (first.live moves).1 = (second.live moves).1 := by
  cases mode : second.mode with
  | debug => rw [live_of_debug first _ (same.trans mode), live_of_debug second _ mode]
  | failFast =>
    have failFast : first.mode = .failFast := same.trans mode
    rw [fst_live_of_failFast first _ failFast (lineless failFast),
      fst_live_of_failFast second _ mode (linelessToo mode)]

/-- Keeping a tree changes no diagnostics. -/
theorem diagnostics_parse (session : Session) :
    session.parse.2.diagnostics = session.readTree.2.diagnostics := by
  unfold parse
  split <;> simp_all

/-- A session reads the tree of the text that is ahead of it. -/
theorem fst_readTree_eq {session : Session} {rest : List Char} (lineless : session.Lineless)
    (ahead : session.ahead = Lexeme.ofText rest) :
    session.readTree.1 = (parseSource session.file rest session.mode).1.map
      (·.relocate session.cursor (session.cursor + Text.byteLength rest)) := by
  let fresh := ofSource session.file rest session.mode
  have mode : session.mode = fresh.mode := rfl
  have lived : (session.live (Move.parsing session.cursor session.ahead)).1 =
      (fresh.live (Move.parsing fresh.cursor fresh.ahead)).1 := by
    rw [Move.parsing_eq session.cursor, ahead]
    exact fst_live_congr mode lineless (lineless_ofSource _ _ _) _
  have grown : session.program.grown =
      fresh.program.grown.relocate session.cursor (session.cursor + Text.byteLength rest) := by
    rw [program, ahead, Program.grown_ofLexemes, Lexeme.totalLength_ofText]
    rfl
  rw [parseSource, fst_parse, readTree_eq, readTree_eq, lived, grown]
  cases (fresh.live (Move.parsing fresh.cursor fresh.ahead)).1 <;> rfl

/-- A session that keeps notices keeps those of the text that is ahead of it if the last line is
noted in the same way. -/
theorem diagnostics_readTree_eq {session : Session} {rest : List Char}
    (debug : session.mode = .debug) (ahead : session.ahead = Lexeme.ofText rest)
    (unended : (!session.endReached && session.lacksFinalNewline) = isUnended rest) :
    session.readTree.2.diagnostics.toList = session.diagnostics.toList ++
      (parseSource session.file rest .debug).2.diagnostics.toList.map
        (·.shift session.cursor) := by
  have later := Reading.remarksToEnd_shift session.cursor 0 (isUnended rest) .betweenStatements
    (Lexeme.ofText rest)
  have still : Reading.betweenStatements.shift session.cursor = .betweenStatements := rfl
  rw [Nat.zero_add, still] at later
  rw [← diagnostics_parse, diagnostics_parse_of_debug debug, diagnostics_parseSource, unended,
    ahead, later, remarksOn, List.map_map, List.map_map]
  rfl

/-- A parse depends on what is ahead alone. Whatever was asked of a session before, a parse comes to
the same as one of the text ahead in a fresh session, at offsets that are larger by the number of
bytes behind, and so do the diagnostics that it keeps. There is one exception: at the end of a
source whose last line has no end, if that end was never handed out, a note on it is kept. -/
theorem readTree_after (file : String) (source : List Char) (mode : Mode) (calls : List Call) :
    let session := (ofSource file source mode).after calls
    let stop := Text.byteLength source
    ∃ rest, Text.slice? source session.cursor stop = some rest ∧
      session.readTree.1 =
        (parseSource file rest mode).1.map (·.relocate session.cursor stop) ∧
      (mode = .debug → session.readTree.2.diagnostics.toList = session.diagnostics.toList ++
        if session.cursor = stop ∧ session.hasEnded = false ∧ isUnended source = true then
          [⟨.expectedFinalNewline, some ⟨file, stop, 0⟩⟩]
        else
          (parseSource file rest mode).2.diagnostics.toList.map (·.shift session.cursor)) ∧
      session.parse.1 = session.readTree.1 ∧
      session.parse.2.diagnostics = session.readTree.2.diagnostics := by
  intro session stop
  obtain ⟨placed, sameFile, sameSource, sameMode⟩ :=
    placed_after (placed_ofSource file source mode) calls
  have settled := settled_after (placed_ofSource file source mode)
    (settled_ofSource file source mode) calls
  change session.file = file at sameFile
  change session.source = source at sameSource
  change session.mode = mode at sameMode
  obtain ⟨before, rest, whole, place, ahead⟩ := placed
  rw [sameSource] at whole
  have behind : Text.byteLength (before ++ session.lexeme) = session.cursor := by
    rw [Text.byteLength_append, place]
    rfl
  have length : session.cursor + Text.byteLength rest = stop := by
    rw [← behind, ← Text.byteLength_append, ← whole]
  have slice : Text.slice? source session.cursor stop = some rest := by
    rw [Text.slice?_eq_some_iff]
    exact ⟨before ++ session.lexeme, [], by rw [whole, List.append_nil], behind, length⟩
  have lineless : session.Lineless := lineless_after (lineless_ofSource file source mode) calls
  have outcome := fst_readTree_eq lineless ahead
  rw [length, sameFile, sameMode] at outcome
  have unended : session.lacksFinalNewline = isUnended source := by
    rw [lacksFinalNewline, sameSource]
    rfl
  refine ⟨rest, slice, outcome, ?_, session.fst_parse, session.diagnostics_parse⟩
  rintro rfl
  by_cases exception : session.cursor = stop ∧ session.hasEnded = false ∧ isUnended source = true
  · -- Nothing is ahead but the end, which is met for the first time.
    obtain ⟨atEnd, never, lacks⟩ := exception
    have empty : rest = [] := by
      apply Decidable.byContradiction
      intro held
      have positive := Text.byteLength_pos held
      omega
    have none : session.ahead = [] := by
      rw [ahead, empty]
      exact Lexeme.ofText.eq_1
    have noted : (!session.endReached && session.lacksFinalNewline) = true := by
      rw [settled.ended, never, unended, lacks]
      rfl
    rw [if_pos ⟨atEnd, never, lacks⟩, ← diagnostics_parse, diagnostics_parse_of_debug sameMode,
      none, noted, Reading.remarksToEnd_nil, atEnd, sameFile]
    rfl
  · have noted : (!session.endReached && session.lacksFinalNewline) = isUnended rest := by
      by_cases empty : rest = []
      · have atEnd : session.cursor = stop := by
          rw [← length, empty]
          rfl
        have none : isUnended [] = false := rfl
        rw [settled.ended, unended, empty, none]
        grind
      · -- The end was not met, and the last line of the source is that of the text ahead.
        have unmet : session.endReached = false := by
          cases met : session.endReached with
          | false => rfl
          | true =>
            have whole := Lexeme.flatMap_text_ofText rest
            rw [← ahead, settled.met met] at whole
            exact absurd whole.symm empty
        rw [unmet, unended, whole, isUnended_append_of_ne_nil _ empty]
        rfl
    have kept := diagnostics_readTree_eq sameMode ahead noted
    rw [if_neg exception, kept, sameFile]

end Session

end Assembly8085
