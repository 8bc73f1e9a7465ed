import Assembly8085.Proofs.Growth
import Assembly8085.Proofs.Placement

/-!
# Whatever is asked of a session

A session may be asked to scan, to read what is ahead, to take up a notice or to treat layout in
another way, in any order and however often, also when it has failed before or has met its end. In
all these histories the offsets stay sound, nothing goes backwards, every tree can be put together,
and there is no failure but that of a session which stops at errors and has met one.
-/
namespace Assembly8085

/-- Something that is asked of a session. -/
inductive Session.Call
  /-- To hand out the next token. -/
  | scan
  /-- To pass over layout from now on, or not to. -/
  | setSkipTrivia (skipTrivia : Bool)
  /-- To bring up a notice about the last lexeme. -/
  | report (notice : Notice)
  /-- To read the tree of what is ahead. -/
  | readTree
  /-- To read that tree and to keep it. -/
  | parse
  deriving DecidableEq

/-- What comes of something that is asked of a session. -/
inductive Session.Answer
  /-- It is done. -/
  | done
  /-- The token that was handed out. -/
  | token (token : Token)
  /-- The tree that was read. -/
  | tree (tree : SyntaxTree)
  deriving DecidableEq

namespace Move

/-- The error of a move is one. -/
theorem isError_of_error? {move : Move} {notice : Notice} (error : move.error? = some notice) :
    notice.isError = true := by
  cases move with
  | report other =>
    rw [error?] at error
    split at error
    · rename_i grave
      exact Option.some.inj error ▸ grave
    · contradiction
  | _ => contradiction

/-- A lexeme is taken by two moves at most. -/
theorem length_taking_le (lexeme : Lexeme) : (taking lexeme).length ≤ 2 := by
  rw [taking]
  cases lexeme.notice? <;> simp [reports]

/-- At most one notice is brought up. -/
theorem length_reports_le (notice : Option Notice) : (reports notice).length ≤ 1 := by
  cases notice <;> simp [reports]

/-- A scan takes two moves for each lexeme ahead and two to hand something out, at most. -/
theorem length_scanning_le (skipTrivia : Bool) (ahead : List Lexeme) :
    (scanning skipTrivia ahead).length ≤ 2 * ahead.length + 2 := by
  induction ahead with
  | nil => exact Nat.le_refl _
  | cons lexeme others ih =>
    have taken := length_taking_le lexeme
    rw [scanning, List.length_append, List.length_cons]
    cases lexeme.kind? with
    | none => dsimp only; omega
    | some kind =>
      dsimp only
      split
      · omega
      · simp only [List.length_singleton]
        omega

/-- A reading takes four moves for each lexeme ahead and five for the end, at most. -/
theorem length_readingFrom_le (reading : Reading) (position : Nat) (ahead : List Lexeme) :
    (readingFrom reading position ahead).length ≤ 4 * ahead.length + 5 := by
  induction ahead generalizing reading position with
  | nil =>
    have reported := length_reports_le reading.finish.notice
    simp only [readingFrom, ending, List.length_append, List.length_cons, List.length_nil]
    split <;> simp only [List.length_cons, List.length_nil] <;> omega
  | cons lexeme others ih =>
    have taken := length_taking_le lexeme
    rw [readingFrom, List.length_append, List.length_cons]
    cases lexeme.kind? with
    | none =>
      have later := ih reading (position + Text.byteLength lexeme.text)
      dsimp only
      omega
    | some kind =>
      have reported := length_reports_le (reading.step ⟨kind, lexeme.text, position⟩).notice
      have later := ih (reading.step ⟨kind, lexeme.text, position⟩).reading
        (position + Text.byteLength lexeme.text)
      simp only [List.cons_append, List.length_cons, List.length_append]
      omega

/-- A parse takes one more move than its reading, at most. -/
theorem length_parsing_le (position : Nat) (ahead : List Lexeme) :
    (parsing position ahead).length ≤ 4 * ahead.length + 6 := by
  have read := length_readingFrom_le .betweenStatements position ahead
  rw [parsing, List.length_append]
  split <;> simp only [List.length_cons, List.length_nil] <;> omega

end Move

/-- A text has no more lexemes than bytes. -/
theorem Lexeme.length_ofText_le (text : List Char) :
    (ofText text).length ≤ Text.byteLength text := by
  fun_induction ofText text with
  | case1 => exact Nat.le_refl _
  | case2 c others ih =>
    have whole := congrArg Text.byteLength (first_append c others)
    have positive := Text.byteLength_pos (first_text_ne_nil c others)
    rw [Text.byteLength_append] at whole
    rw [List.length_cons]
    omega

namespace Session

/-- Does what is asked of a session. -/
def perform (session : Session) : Call → Except Failure Answer × Session
  | .scan =>
    let (result, after) := session.scan
    (result.map .token, after)
  | .setSkipTrivia skipTrivia => (.ok .done, session.setSkipTrivia skipTrivia)
  | .report notice =>
    let (result, after) := session.report notice
    (result.map fun _ => .done, after)
  | .readTree =>
    let (result, after) := session.readTree
    (result.map .tree, after)
  | .parse =>
    let (result, after) := session.parse
    (result.map .tree, after)

/-- The session when all of some calls were made of it, whatever came of each. -/
def after (session : Session) (calls : List Call) : Session :=
  calls.foldl (fun behind call => (behind.perform call).2) session

/-- The moves that a call asks a session to live through. -/
def moves (session : Session) : Call → List Move
  | .scan => Move.scanning session.skipTrivia session.ahead
  | .setSkipTrivia _ => []
  | .report notice => [.report notice]
  | .readTree | .parse => Move.parsing session.cursor session.ahead

/-- What is promised about a call of a session. -/
structure Serves (session : Session) (call : Call) : Prop where
  /-- It comes to an end: the session lives through a number of moves that the length of its source
  bounds. -/
  bounded : (session.moves call).length ≤ 4 * Text.byteLength session.source + 6
  /-- All along the way the offsets are sound. -/
  stages : ∀ stage ∈ session.stages (session.moves call), stage.Sound
  /-- They are sound at the end of it. -/
  sound : (session.perform call).2.Sound
  /-- At no stage has the session come less far than before. -/
  forward : (session :: session.stages (session.moves call)).Pairwise (·.cursor ≤ ·.cursor)
  /-- It ends where the last stage does. -/
  reached : (session.perform call).2.cursor =
    ((session.stages (session.moves call)).getLastD session).cursor
  /-- So it does not end less far than it has started. -/
  further : session.cursor ≤ (session.perform call).2.cursor
  /-- A session that keeps notices answers. -/
  answers : session.mode = .debug → ∃ answer, (session.perform call).1 = .ok answer
  /-- If a session does not answer, it stops at errors and has met one, which it tells without its
  place. -/
  aborted : ∀ failure, (session.perform call).1 = .error failure →
    session.mode = .failFast ∧
      ∃ notice, failure = .aborted notice notice.text ∧ notice.isError = true
  /-- The tree of what is ahead can be put together. -/
  grown : ∃ tree, session.program.tree = .ok tree
  /-- So can each part of it, if the session stops on the way. -/
  growing : ∀ early late, session.program.seeds = early ++ late →
    ∃ forest, Forest.empty.plantAll early = .ok forest
  /-- No statement ends in front of its start. -/
  spans : ∀ statement ∈ session.program.statements, statement.start ≤ statement.stop
  /-- A scan that does not hand out the end of the source takes the session further. -/
  progress : call = .scan →
    (∃ token, (session.perform call).1 = .ok (.token token) ∧ token.kind = .endOfFile) ∨
      session.cursor < (session.perform call).2.cursor

/-- What is left of a session is the session or one of those that it becomes. -/
theorem snd_live_mem (session : Session) (moves : List Move) :
    (session.live moves).2 ∈ session :: session.stages moves := by
  rw [snd_live_eq]
  exact List.getLastD_mem_cons ..

/-- A session keeps its source with the name of it, and how it treats notices. -/
theorem frame_of_mem_stages {session stage : Session} {moves : List Move}
    (member : stage ∈ session :: session.stages moves) :
    stage.file = session.file ∧ stage.source = session.source ∧ stage.mode = session.mode := by
  induction moves generalizing session with
  | nil =>
    obtain rfl := List.mem_singleton.mp member
    exact ⟨rfl, rfl, rfl⟩
  | cons move others ih =>
    rcases List.mem_cons.mp member with rfl | later
    · exact ⟨rfl, rfl, rfl⟩
    · rw [stages] at later
      have behind : stage ∈ session.act move :: (session.act move).stages others := by
        split at later
        · exact List.mem_cons.mpr (.inl (List.mem_singleton.mp later))
        · exact later
      simpa using ih behind

/-- A session does not fail but where it stops at errors and meets one. -/
theorem aborted_of_live {session : Session} {moves : List Move} {failure : Failure}
    (lineless : session.Lineless) (failed : (session.live moves).1 = .error failure) :
    session.mode = .failFast ∧
      ∃ notice, failure = .aborted notice notice.text ∧ notice.isError = true := by
  cases mode : session.mode with
  | debug =>
    rw [live_of_debug session moves mode] at failed
    contradiction
  | failFast =>
    rw [fst_live_of_failFast session moves mode (lineless mode)] at failed
    split at failed
    · rename_i notice found
      obtain ⟨move, _, error⟩ := List.exists_of_findSome?_eq_some found
      exact ⟨rfl, notice, (Except.error.inj failed).symm, Move.isError_of_error? error⟩
    · contradiction

/-- A call leaves a session as the moves do, but for the tree and for what scans pass over. -/
theorem snd_perform (session : Session) (call : Call) :
    ∃ skipTrivia tree, (session.perform call).2 =
      { (session.live (session.moves call)).2 with skipTrivia, tree } := by
  cases call with
  | scan => exact ⟨_, _, rfl⟩
  | setSkipTrivia skipTrivia => exact ⟨skipTrivia, session.tree, rfl⟩
  | report notice => exact ⟨_, _, rfl⟩
  | readTree =>
    have read := congrArg Prod.snd session.readTree_eq
    exact ⟨_, _, read⟩
  | parse =>
    change ∃ skipTrivia tree, session.parse.2 = _
    cases lived : (session.live (Move.parsing session.cursor session.ahead)).1 with
    | ok done => exact ⟨_, _, congrArg Prod.snd (parse_eq_ok lived)⟩
    | error failure => exact ⟨_, _, congrArg Prod.snd (parse_eq_error lived)⟩

/-- A call answers if the session lives through its moves, and fails as they do. -/
theorem fst_perform (session : Session) (call : Call) :
    ∃ answer, (session.perform call).1 =
      (session.live (session.moves call)).1.map fun _ => answer := by
  have twice {α : Type} (result : Except Failure Unit) (found : α) (answer : α → Answer) :
      (result.map fun _ => found).map answer = result.map fun _ => answer found := by
    cases result <;> rfl
  have read : session.readTree.1.map Answer.tree =
      (session.live (session.moves .readTree)).1.map fun _ => .tree session.program.grown := by
    rw [readTree_eq]
    exact twice ..
  cases call with
  | scan => exact ⟨_, twice ..⟩
  | setSkipTrivia skipTrivia => exact ⟨.done, rfl⟩
  | report notice => exact ⟨.done, rfl⟩
  | readTree => exact ⟨_, read⟩
  | parse =>
    refine ⟨.tree session.program.grown, ?_⟩
    change session.parse.1.map Answer.tree = _
    rw [fst_parse]
    exact read

/-- The lexemes that a call takes are those ahead, from the first on. -/
theorem taken?_moves (session : Session) (call : Call) :
    (session.moves call).filterMap Move.taken? <+: session.ahead := by
  cases call with
  | scan => exact Move.taken?_scanning ..
  | setSkipTrivia skipTrivia => exact List.nil_prefix
  | report notice => exact List.nil_prefix
  | readTree | parse => exact ⟨[], (List.append_nil _).trans (Move.taken?_parsing ..)⟩

/-- A call takes four moves for each lexeme ahead and six more, at most. -/
theorem length_moves_le (session : Session) (call : Call) :
    (session.moves call).length ≤ 4 * session.ahead.length + 6 := by
  cases call with
  | scan =>
    have bound := Move.length_scanning_le session.skipTrivia session.ahead
    rw [moves]
    omega
  | setSkipTrivia skipTrivia => exact Nat.zero_le _
  | report notice =>
    simp only [moves, List.length_singleton]
    omega
  | readTree | parse => exact Move.length_parsing_le ..

/-- What a session knows of its source does not depend on the tree, nor on what scans pass over. -/
theorem Placed.perform {session : Session} (placed : session.Placed) (call : Call) :
    (session.perform call).2.Placed := by
  obtain ⟨skipTrivia, tree, left⟩ := session.snd_perform call
  have lived : (session.live (session.moves call)).2.Placed := by
    rcases List.mem_cons.mp (session.snd_live_mem (session.moves call)) with same | later
    · rw [same]
      exact placed
    · exact placed.stages (session.taken?_moves call) _ later
  rw [left]
  exact lived

/-- A call changes neither the source and its name nor how notices are treated. -/
theorem frame_perform (session : Session) (call : Call) :
    (session.perform call).2.file = session.file ∧
      (session.perform call).2.source = session.source ∧
      (session.perform call).2.mode = session.mode := by
  obtain ⟨skipTrivia, tree, left⟩ := session.snd_perform call
  have lived := frame_of_mem_stages (session.snd_live_mem (session.moves call))
  rw [left]
  exact lived

/-- A call does not let a session know of lines. -/
theorem Lineless.perform {session : Session} (lineless : session.Lineless) (call : Call) :
    (session.perform call).2.Lineless := by
  obtain ⟨skipTrivia, tree, left⟩ := session.snd_perform call
  obtain ⟨mode, _, lineMap⟩ := session.live_settings (session.moves call)
  rw [left]
  intro failFast
  exact lineMap.trans (lineless (mode.symm.trans failFast))

/-- Whatever was asked of a session that stops at errors, it knows nothing of lines. -/
theorem lineless_after {session : Session} (lineless : session.Lineless) (calls : List Call) :
    (session.after calls).Lineless := by
  induction calls generalizing session with
  | nil => exact lineless
  | cons call others ih => exact ih (lineless.perform call)

/-- Whatever was asked of a session, it stands where it knows its source, with the source and the
treatment of notices that it started with. -/
theorem placed_after {session : Session} (placed : session.Placed) (calls : List Call) :
    (session.after calls).Placed ∧ (session.after calls).file = session.file ∧
      (session.after calls).source = session.source ∧
      (session.after calls).mode = session.mode := by
  induction calls generalizing session with
  | nil => exact ⟨placed, rfl, rfl, rfl⟩
  | cons call others ih =>
    obtain ⟨file, source, mode⟩ := session.frame_perform call
    rw [← file, ← source, ← mode]
    exact ih (placed.perform call)

/-- However far a session lives through moves, it does not end less far than it has started. -/
theorem cursor_le_live (session : Session) (moves : List Move) :
    session.cursor ≤ (session.live moves).2.cursor := by
  rcases List.mem_cons.mp (session.snd_live_mem moves) with same | later
  · exact Nat.le_of_eq (congrArg cursor same.symm)
  · exact cursor_le_of_mem_stages later

/-- A scan that does not hand out the end of the source takes a session further. -/
theorem Placed.progress {session : Session} (placed : session.Placed) :
    (∃ token, (session.perform .scan).1 = .ok (.token token) ∧ token.kind = .endOfFile) ∨
      session.cursor < (session.perform .scan).2.cursor := by
  cases ahead : session.ahead with
  | nil =>
    refine .inl ⟨⟨.endOfFile, [], session.cursor⟩, ?_, rfl⟩
    rw [Session.perform, scan, ahead, Move.scanning, live_ending, ← currentToken_ending]
    rfl
  | cons lexeme others =>
    -- The next lexeme is taken whatever comes of the scan, and it holds a character.
    have lawful : lexeme.isLawful = true := placed.lawful lexeme (by simp [ahead])
    have held := Text.byteLength_pos (Lexeme.text_ne_nil_of_isLawful lawful)
    have taken : (session.take lexeme).cursor = session.cursor + Text.byteLength lexeme.text := rfl
    right
    change _ < (session.live (Move.scanning session.skipTrivia session.ahead)).2.cursor
    rw [ahead, Move.scanning, Move.taking, List.cons_append, live_take]
    exact Nat.lt_of_lt_of_le (by omega) (cursor_le_live ..)

/-- A session that is placed keeps all promises about a call. -/
theorem Placed.serves {session : Session} (placed : session.Placed) (lineless : session.Lineless)
    (call : Call) : session.Serves call := by
  obtain ⟨skipTrivia, tree, left⟩ := session.snd_perform call
  obtain ⟨answer, result⟩ := session.fst_perform call
  have grown := Program.tree_eq (Program.wellFormed_ofLexemes session.cursor session.ahead)
  have cursor : (session.perform call).2.cursor =
      (session.live (session.moves call)).2.cursor := by
    rw [left]
    rfl
  refine
    { bounded := ?_
      stages := fun stage member => (placed.stages (session.taken?_moves call) stage member).sound
      sound := (placed.perform call).sound
      forward := session.pairwise_cursor_stages (session.moves call)
      reached := by rw [cursor, snd_live_eq]
      further := by rw [cursor]; exact session.cursor_le_live _
      answers := ?_
      aborted := ?_
      grown := ⟨_, grown⟩
      growing := ?_
      spans := fun _ => Program.start_le_stop_of_mem_ofLexemes
      progress := ?_ }
  · obtain ⟨before, rest, whole, _, ahead⟩ := placed
    have moves := session.length_moves_le call
    have lexemes := Lexeme.length_ofText_le rest
    have source := congrArg Text.byteLength whole
    rw [Text.byteLength_append] at source
    rw [ahead] at moves
    omega
  · intro debug
    rw [result, live_of_debug _ _ debug]
    exact ⟨answer, rfl⟩
  · intro failure failed
    rw [result] at failed
    cases lived : (session.live (session.moves call)).1 with
    | ok done => simp [lived, Except.map] at failed
    | error other =>
      obtain rfl : other = failure := by simpa [lived, Except.map] using failed
      exact aborted_of_live lineless lived
  · -- A session that stops has added the first nodes of the very same tree.
    intro early late seeds
    have planted : ∃ forest, Forest.empty.plantAll session.program.seeds = .ok forest := by
      change session.program.tree = _ at grown
      rw [Program.tree] at grown
      split at grown
      · exact ⟨_, by assumption⟩
      · contradiction
    obtain ⟨forest, planted⟩ := planted
    rw [seeds] at planted
    exact Forest.exists_plantAll_of_append planted
  · rintro rfl
    exact placed.progress

/-- Whatever was asked of a session before, all promises about the next call are kept. -/
theorem serves_after (file : String) (source : List Char) (mode : Mode) (calls : List Call)
    (call : Call) :
    let session := (ofSource file source mode).after calls
    session.source = source ∧ session.mode = mode ∧ session.Sound ∧ session.Serves call := by
  intro session
  obtain ⟨placed, _, same, still⟩ := placed_after (placed_ofSource file source mode) calls
  have lineless : session.Lineless := lineless_after (lineless_ofSource file source mode) calls
  exact ⟨same, still, placed.sound, placed.serves lineless call⟩

end Session

end Assembly8085
