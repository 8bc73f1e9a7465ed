import Assembly8085.Session
import Assembly8085.Proofs.Reading

/-!
# Living through moves

What a move changes in a session is said once for each thing that a session holds. A session
that keeps notices keeps the errors among its moves, in order; any other one keeps nothing. No
move touches the tree, and whether a session stops has no influence on what it stops at.
-/
namespace Assembly8085.Session

/-- The session past all lexemes. -/
def atEnd (session : Session) : Session :=
  { session with tokenPosition := session.cursor, lexeme := [], identifierClass := none }

/-- A session past all lexemes brings up the note about its last line, unless it did before. -/
theorem meetEnd_eq (session : Session) :
    session.meetEnd =
      { if !session.endReached && session.lacksFinalNewline then
          session.atEnd.bringUp .expectedFinalNewline
        else session.atEnd with endReached := true } := rfl

/-- A notice changes the diagnostics and the log only. -/
theorem exists_bringUp_eq (session : Session) (notice : Notice) :
    ∃ diagnostics log, session.bringUp notice = { session with diagnostics, log } := by
  unfold bringUp
  split <;> exact ⟨_, _, rfl⟩

/-- What a session fails with does not depend on the notices that were brought up before. -/
theorem abort_bringUp (session : Session) (notice other : Notice) :
    (session.bringUp notice).abort other = session.abort other := by
  obtain ⟨diagnostics, log, same⟩ := session.exists_bringUp_eq notice
  rw [same]
  rfl

/-- Meeting the end changes a session there by its diagnostics and its log, and the end is met. -/
theorem exists_meetEnd_eq (session : Session) :
    ∃ diagnostics log, session.meetEnd =
      { session.atEnd with diagnostics, log, endReached := true } := by
  rw [meetEnd_eq]
  split
  · obtain ⟨diagnostics, log, same⟩ := session.atEnd.exists_bringUp_eq .expectedFinalNewline
    exact ⟨diagnostics, log, by rw [same]⟩
  · exact ⟨_, _, rfl⟩

/-- No move touches the source, its name or the tree. -/
theorem act_frame (session : Session) (move : Move) :
    let after := session.act move
    after.file = session.file ∧ after.source = session.source ∧ after.tree = session.tree := by
  cases move with
  | report notice =>
    obtain ⟨diagnostics, log, same⟩ := session.exists_bringUp_eq notice
    rw [act, same]
    exact ⟨rfl, rfl, rfl⟩
  | meetEnd =>
    obtain ⟨diagnostics, log, met⟩ := session.exists_meetEnd_eq
    rw [act, met]
    exact ⟨rfl, rfl, rfl⟩
  | _ => exact ⟨rfl, rfl, rfl⟩

/-- No move touches the name of the source. -/
@[simp] theorem file_act (session : Session) (move : Move) :
    (session.act move).file = session.file := (act_frame session move).1

/-- No move touches the source. -/
@[simp] theorem source_act (session : Session) (move : Move) :
    (session.act move).source = session.source := (act_frame session move).2.1

/-- No move touches the tree. -/
@[simp] theorem tree_act (session : Session) (move : Move) :
    (session.act move).tree = session.tree := (act_frame session move).2.2

/-- A session that keeps notices keeps this one, at its last lexeme. -/
theorem diagnostics_bringUp {session : Session} (debug : session.mode = .debug)
    (notice : Notice) :
    (session.bringUp notice).diagnostics =
      session.diagnostics.push (session.diagnose notice) := by
  simp [bringUp, debug]

/-- A session that stops at errors keeps no notice. -/
theorem diagnostics_bringUp_of_failFast {session : Session} (failFast : session.mode = .failFast)
    (notice : Notice) : (session.bringUp notice).diagnostics = session.diagnostics := by
  simp [bringUp, failFast, write]

/-- A session that stops at errors keeps no notice of a move. -/
theorem diagnostics_act_of_failFast {session : Session} (failFast : session.mode = .failFast)
    (move : Move) : (session.act move).diagnostics = session.diagnostics := by
  cases move with
  | report notice => exact diagnostics_bringUp_of_failFast failFast notice
  | meetEnd =>
    simp only [act, meetEnd_eq]
    split
    · have atEnd : session.atEnd.mode = .failFast := failFast
      exact diagnostics_bringUp_of_failFast atEnd _
    · rfl
  | _ => rfl

/-- Moves leave the tree alone, and a session that stops at errors keeps nothing of them. -/
theorem live_frame (session : Session) (moves : List Move) :
    (session.live moves).2.tree = session.tree ∧
      (session.mode = .failFast → (session.live moves).2.diagnostics = session.diagnostics) := by
  induction moves generalizing session with
  | nil => exact ⟨rfl, fun _ => rfl⟩
  | cons move others ih =>
    rw [live]
    split
    · exact ⟨tree_act session move, fun failFast => diagnostics_act_of_failFast failFast move⟩
    · obtain ⟨tree, kept⟩ := ih (session.act move)
      rw [tree_act] at tree
      refine ⟨tree, fun failFast => ?_⟩
      rw [kept (by simpa using failFast), diagnostics_act_of_failFast failFast]

/-- Moves change neither how notices and layout are treated nor where lines start. -/
theorem live_settings (session : Session) (moves : List Move) :
    let after := (session.live moves).2
    after.mode = session.mode ∧ after.skipTrivia = session.skipTrivia ∧
      after.lineMap = session.lineMap := by
  induction moves generalizing session with
  | nil => exact ⟨rfl, rfl, rfl⟩
  | cons move others ih =>
    rw [live]
    split
    · exact act_settings session move
    · simpa using ih (session.act move)

/-- A session that stops at errors knows nothing of lines. -/
def Lineless (session : Session) : Prop := session.mode = .failFast → session.lineMap = none

/-- A fresh session that stops at errors knows nothing of lines. -/
theorem lineless_ofSource (file : String) (source : List Char) (mode : Mode) :
    (ofSource file source mode).Lineless := by
  rintro ⟨⟩
  rfl

/-- A session that keeps notices may know of lines. -/
theorem lineless_of_debug {session : Session} (debug : session.mode = .debug) :
    session.Lineless := by
  intro failFast
  rw [debug] at failFast
  contradiction

/-- The errors that a session has kept, in order. -/
def errors (session : Session) : List Diagnostic := session.diagnostics.toList.filter (·.isError)

/-- The first error kept is the first of the errors. -/
theorem head?_errors (session : Session) :
    session.errors.head? = session.diagnostics.toList.find? (·.isError) :=
  List.head?_filter

/-- Errors were kept exactly if there are any. -/
theorem hasErrors_eq (session : Session) : session.hasErrors = !session.errors.isEmpty := by
  simp only [hasErrors, errors, ← Array.any_toList]
  induction session.diagnostics.toList with
  | nil => rfl
  | cons diagnostic others ih =>
    cases error : diagnostic.isError <;> simp [error, ih]

/-- A session that keeps notices keeps the error of a move behind the ones it has. -/
theorem errors_act {session : Session} (debug : session.mode = .debug) (move : Move) :
    (session.act move).errors.map (·.notice) =
      session.errors.map (·.notice) ++ move.error?.toList := by
  have brought (session : Session) (debug : session.mode = .debug) (notice : Notice) :
      (session.bringUp notice).errors.map (·.notice) =
        session.errors.map (·.notice) ++ (Move.report notice).error?.toList := by
    rw [errors, diagnostics_bringUp debug, Array.toList_push, List.filter_append, List.map_append]
    cases error : notice.isError <;> simp [Diagnostic.isError, diagnose, Move.error?, error, errors]
  cases move with
  | report notice => exact brought session debug notice
  | meetEnd =>
    simp only [act, meetEnd_eq]
    split
    · exact brought session.atEnd debug .expectedFinalNewline
    · simp [Move.error?, errors, atEnd]
  | _ => simp [act, Move.error?, errors, take, surface, write]

/-- A session that keeps notices keeps the errors among its moves behind the ones it has. -/
theorem errors_foldl_act {session : Session} (debug : session.mode = .debug)
    (moves : List Move) :
    (moves.foldl act session).errors.map (·.notice) =
      session.errors.map (·.notice) ++ moves.filterMap Move.error? := by
  induction moves generalizing session with
  | nil => simp
  | cons move others ih =>
    rw [List.foldl_cons, ih (by simpa using debug), errors_act debug, List.append_assoc]
    cases error : move.error? <;> simp [error]

/-- A session reads the tree of the program ahead unless it stops on the way. -/
theorem readTree_eq (session : Session) :
    session.readTree =
      ((session.live (Move.parsing session.cursor session.ahead)).1.map
          fun _ => session.program.grown,
        (session.live (Move.parsing session.cursor session.ahead)).2) := by
  have grown := Program.tree_eq (Program.wellFormed_ofLexemes session.cursor session.ahead)
  rw [readTree]
  cases session.live (Move.parsing session.cursor session.ahead) with
  | mk result after =>
    cases result with
    | error failure => rfl
    | ok done =>
      simp only [program, grown]
      rfl

/-- A tree that is kept is the one that was read. -/
theorem fst_parse (session : Session) : session.parse.1 = session.readTree.1 := by
  unfold parse
  split <;> simp_all

/-- A parse whose moves bring up no error that stops it finds the tree of the program ahead. -/
theorem parse_eq_ok {session : Session}
    (lived : (session.live (Move.parsing session.cursor session.ahead)).1 = .ok ()) :
    session.parse =
      (.ok session.program.grown,
        { (session.live (Move.parsing session.cursor session.ahead)).2 with
          tree := some session.program.grown }) := by
  rw [parse, readTree_eq, lived]
  rfl

/-- A parse fails as its moves do, and then it keeps no tree. -/
theorem parse_eq_error {session : Session} {failure : Failure}
    (stopped : (session.live (Move.parsing session.cursor session.ahead)).1 = .error failure) :
    session.parse =
      (.error failure, (session.live (Move.parsing session.cursor session.ahead)).2) := by
  rw [parse, readTree_eq, stopped]
  rfl

/-- A session that keeps notices always finds the tree of the program ahead. -/
theorem parse_of_debug {session : Session} (debug : session.mode = .debug) :
    session.parse =
      (.ok session.program.grown,
        { (Move.parsing session.cursor session.ahead).foldl act session with
          tree := some session.program.grown }) := by
  have lived := live_of_debug session (Move.parsing session.cursor session.ahead) debug
  rw [parse_eq_ok (by rw [lived]), lived]

end Assembly8085.Session
