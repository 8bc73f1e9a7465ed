import Assembly8085.Proofs.Suffix

/-!
# What a session holds stays coherent

A session changes what it holds at different moments of a move, and it may stop in the middle of a
scan or a parse. Whatever was asked of it before, what it holds fits together again behind each
call: the source and what goes with it stay, diagnostics are only ever added, a class goes with the
identifier that was handed out, and the tree is that of the last parse that came through.
-/
namespace Assembly8085.Session

/-- A class is that of the last lexeme, and the last token handed out is an identifier. -/
def Classified (session : Session) : Prop :=
  ∀ identifierClass, session.identifierClass = some identifierClass →
    session.token = .identifier ∧ identifierClass = .ofText session.lexeme

/-- What moves do not undo. -/
structure Keeps (before after : Session) : Prop where
  /-- Notices are treated in the same way. -/
  mode : after.mode = before.mode
  /-- Lines start where they did. -/
  lineMap : after.lineMap = before.lineMap
  /-- Diagnostics are added behind those that there are. -/
  earlier : before.diagnostics.toList <+: after.diagnostics.toList
  /-- A session that stops at errors adds none. -/
  unkept : before.mode = .failFast → after.diagnostics = before.diagnostics
  /-- A class still goes with the last token. -/
  classified : before.Classified → after.Classified

/-- A session keeps what it holds. -/
theorem Keeps.refl (session : Session) : Keeps session session where
  mode := rfl
  lineMap := rfl
  earlier := List.prefix_rfl
  unkept := fun _ => rfl
  classified := id

/-- What is kept and kept again is kept. -/
theorem Keeps.trans {first second third : Session} (here : Keeps first second)
    (behind : Keeps second third) : Keeps first third where
  mode := behind.mode.trans here.mode
  lineMap := behind.lineMap.trans here.lineMap
  earlier := here.earlier.trans behind.earlier
  unkept := fun failFast =>
    (behind.unkept (here.mode.trans failFast)).trans (here.unkept failFast)
  classified := behind.classified ∘ here.classified

/-- A session that keeps notices puts this one behind the others, and any other one drops it. -/
theorem keeps_bringUp (session : Session) (notice : Notice) :
    Keeps session (session.bringUp notice) := by
  obtain ⟨diagnostics, log, same⟩ := session.exists_bringUp_eq notice
  refine
    { mode := session.mode_bringUp notice
      lineMap := (session.bringUp_settings notice).2.2
      earlier := ?_
      unkept := fun failFast => diagnostics_bringUp_of_failFast failFast notice
      classified := ?_ }
  · cases mode : session.mode with
    | debug =>
      rw [diagnostics_bringUp mode, Array.toList_push]
      exact List.prefix_append ..
    | failFast => simp [diagnostics_bringUp_of_failFast mode]
  · rw [same]
    exact id

/-- A session past all lexemes has no class. -/
theorem keeps_atEnd (session : Session) : Keeps session session.atEnd :=
  { Keeps.refl session with classified := fun _ => nofun }

/-- A move undoes nothing. -/
theorem keeps_act (session : Session) (move : Move) : Keeps session (session.act move) := by
  cases move with
  | take lexeme => exact { Keeps.refl session with classified := fun _ => nofun }
  | report notice => exact session.keeps_bringUp notice
  | surface kind =>
    refine { Keeps.refl session with classified := fun _ identifierClass same => ?_ }
    change (if kind = .identifier then some (IdentifierClass.ofText session.lexeme) else none) = _
      at same
    change kind = .identifier ∧ identifierClass = .ofText session.lexeme
    split at same
    · exact ⟨by assumption, (Option.some.inj same).symm⟩
    · contradiction
  | meetEnd =>
    simp only [act, meetEnd_eq]
    split
    · exact { session.keeps_atEnd.trans (session.atEnd.keeps_bringUp .expectedFinalNewline) with }
    · exact { session.keeps_atEnd with }
  | summarize errors => exact { Keeps.refl session with }

/-- Moves undo nothing, however far a session lives through them. -/
theorem keeps_live (session : Session) (moves : List Move) :
    Keeps session (session.live moves).2 := by
  induction moves generalizing session with
  | nil => exact Keeps.refl session
  | cons move others ih =>
    have here := session.keeps_act move
    rw [live]
    split
    · exact here
    · exact here.trans (ih (session.act move))

/-- A call undoes nothing. -/
theorem keeps_perform (session : Session) (call : Call) :
    Keeps session (session.perform call).2 := by
  obtain ⟨skipTrivia, tree, left⟩ := session.snd_perform call
  have lived := session.keeps_live (session.moves call)
  rw [left]
  exact { lived with }

/-- Calls undo nothing. -/
theorem keeps_after (session : Session) (calls : List Call) :
    Keeps session (session.after calls) := by
  induction calls generalizing session with
  | nil => exact Keeps.refl session
  | cons call others ih => exact (session.keeps_perform call).trans (ih (session.perform call).2)

/-- Behind a scan that comes through there is a class exactly if it handed out an identifier. -/
theorem isSome_identifierClass_scan {session : Session} {token : Token}
    (scanned : session.scan.1 = .ok token) :
    session.scan.2.identifierClass.isSome = true ↔ session.scan.2.token = .identifier := by
  have surfaced (before : Session) (kind : TokenKind) :
      (before.surface kind).identifierClass.isSome = true ↔
        (before.surface kind).token = .identifier := by
    change (if kind = .identifier then some _ else none).isSome = true ↔ kind = .identifier
    split <;> simp_all
  have scans := session.scans_scan
  generalize session.scan = outcome at scans scanned ⊢
  cases scans with
  | ended passes => exact surfaced _ .endOfFile
  | token passed ahead passes outlives handed => exact surfaced ..
  | stopped passed ahead passes failFast noticed grave => contradiction

/-- Calls with what comes of each, one behind the other. -/
def transcript (session : Session) : (calls : List Call) → List (Call × Except Failure Answer)
  | [] => []
  | call :: others =>
    (call, (session.perform call).1) :: (session.perform call).2.transcript others

/-- The tree of a parse that came through. -/
def parsedTree? : Call × Except Failure Answer → Option SyntaxTree
  | (.parse, .ok (.tree tree)) => some tree
  | _ => none

/-- A call leaves the tree alone unless it is a parse that comes through. -/
theorem tree_perform (session : Session) (call : Call) :
    (session.perform call).2.tree =
      (parsedTree? (call, (session.perform call).1)).or session.tree := by
  have lived := (session.live_frame (session.moves call)).1
  cases call with
  | scan => exact lived
  | setSkipTrivia skipTrivia => rfl
  | report notice => exact lived
  | readTree =>
    have read := congrArg (fun outcome => outcome.2.tree) session.readTree_eq
    exact read.trans lived
  | parse =>
    change session.parse.2.tree = (parsedTree? (.parse, session.parse.1.map .tree)).or session.tree
    cases through : (session.live (Move.parsing session.cursor session.ahead)).1 with
    | ok done =>
      rw [parse_eq_ok through]
      rfl
    | error failure =>
      rw [parse_eq_error through]
      exact lived

/-- The tree is that of the last parse that came through. -/
theorem tree_after (session : Session) (calls : List Call) :
    (session.after calls).tree =
      ((session.transcript calls).filterMap parsedTree?).getLast?.or session.tree := by
  induction calls generalizing session with
  | nil => rfl
  | cons call others ih =>
    change ((session.perform call).2.after others).tree = _
    rw [ih, tree_perform, transcript]
    cases parsed : parsedTree? (call, (session.perform call).1) with
    | none => rw [List.filterMap_cons_none parsed, Option.none_or]
    | some tree =>
      rw [List.filterMap_cons_some parsed, List.getLast?_cons]
      cases ((session.perform call).2.transcript others |>.filterMap parsedTree?).getLast? <;> rfl

/-- What a session holds fits together behind a call that it has answered to, or failed at. -/
structure Coherent (start before : Session) (call : Call) (answer : Except Failure Answer)
    (after : Session) : Prop where
  /-- The name of the source stays. -/
  file : after.file = start.file
  /-- The source stays. -/
  source : after.source = start.source
  /-- Notices are treated as ever. -/
  mode : after.mode = start.mode
  /-- What is known of the lines stays. -/
  lineMap : after.lineMap = start.lineMap
  /-- The lines are known exactly if notices are kept. -/
  mapped : after.lineMap.isSome = true ↔ after.mode = .debug
  /-- Diagnostics are added behind those that there were. -/
  earlier : before.diagnostics.toList <+: after.diagnostics.toList
  /-- A session that stops at errors has kept none. -/
  unkept : after.mode = .failFast → after.diagnostics = #[] ∧ after.hasErrors = false
  /-- A class goes with an identifier, and is that of the text where the session stands. -/
  classified : ∀ identifierClass, after.identifierClass = some identifierClass →
    after.token = .identifier ∧
      (Text.slice? after.source after.tokenPosition after.cursor).map IdentifierClass.ofText =
        some identifierClass
  /-- Behind a scan that comes through, an identifier has its class, and nothing else has one. -/
  scanned : call = .scan → ∀ found, answer = .ok found →
    (after.identifierClass.isSome = true ↔ after.token = .identifier)
  /-- Where the end is met, the session stands there. -/
  ended : after.endReached = true → after.cursor = Text.byteLength after.source
  /-- The tree stays unless the call is a parse that comes through. -/
  untouched : parsedTree? (call, answer) = none → after.tree = before.tree

/-- Whatever was asked of a session before, what it holds fits together behind the next call, and
its tree is that of the last parse that came through. -/
theorem coherent_after (file : String) (source : List Char) (mode : Mode) (calls : List Call)
    (call : Call) :
    let start := ofSource file source mode
    let before := start.after calls
    let outcome := before.perform call
    Coherent start before call outcome.1 outcome.2 ∧
      outcome.2.tree = ((start.transcript (calls ++ [call])).filterMap parsedTree?).getLast? := by
  intro start before outcome
  have fresh : start.Classified := by
    intro identifierClass same
    contradiction
  have whole : start.after (calls ++ [call]) = outcome.2 := List.foldl_append
  have kept := start.keeps_after (calls ++ [call])
  have tree := start.tree_after (calls ++ [call])
  obtain ⟨placed, sameFile, sameSource, _⟩ :=
    placed_after (placed_ofSource file source mode) (calls ++ [call])
  have settled := settled_after (placed_ofSource file source mode)
    (settled_ofSource file source mode) (calls ++ [call])
  change (start.after _).Placed at placed
  change (start.after _).file = file at sameFile
  change (start.after _).source = source at sameSource
  change (start.after _).Settled at settled
  rw [whole] at kept tree placed sameFile sameSource settled
  refine ⟨?_, tree.trans Option.or_none⟩
  refine
    { file := sameFile
      source := sameSource
      mode := kept.mode
      lineMap := kept.lineMap
      mapped := ?_
      earlier := (before.keeps_perform call).earlier
      unkept := ?_
      classified := ?_
      scanned := ?_
      ended := ?_
      untouched := ?_ }
  · rw [kept.lineMap, kept.mode]
    cases mode <;> simp [start, ofSource]
  · intro failFast
    have none : outcome.2.diagnostics = #[] := kept.unkept (kept.mode.symm.trans failFast)
    exact ⟨none, by simp [hasErrors, none]⟩
  · intro identifierClass same
    obtain ⟨identifier, own⟩ := kept.classified fresh identifierClass same
    refine ⟨identifier, ?_⟩
    rw [placed.sound.lexeme, own]
    rfl
  · rintro rfl found answered
    cases scanned : before.scan.1 with
    | ok token => exact isSome_identifierClass_scan scanned
    | error failure =>
      change before.scan.1.map Answer.token = .ok found at answered
      rw [scanned] at answered
      contradiction
  · intro met
    have stop := placed.stop
    rwa [settled.met met] at stop
  · intro none
    have left := before.tree_perform call
    rwa [none] at left

end Assembly8085.Session
