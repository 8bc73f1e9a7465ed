import Assembly8085.Proofs.Scan

/-!
# What a scan comes to

A scan takes lexemes until one of three things happens: a token is handed out, the session stops at
a lexeme that is at fault, or there is no lexeme left and the end of the source is handed out. In
either mode nothing else can happen, and what is left of the session is known in all three cases but
for its diagnostics and its log.
-/
namespace Assembly8085.Session

/-- The session with lexemes taken, and with what there is to say about them brought up. -/
def takeAll (session : Session) (lexemes : List Lexeme) : Session :=
  (lexemes.flatMap Move.taking).foldl act session

/-- Nothing changes if no lexeme is taken. -/
@[simp] theorem takeAll_nil (session : Session) : session.takeAll [] = session := rfl

/-- The first lexeme is taken before the others. -/
theorem takeAll_cons (session : Session) (lexeme : Lexeme) (others : List Lexeme) :
    session.takeAll (lexeme :: others) =
      ((Move.taking lexeme).foldl act session).takeAll others := by
  rw [takeAll, List.flatMap_cons, List.foldl_append]
  rfl

/-- The last lexeme is taken behind the others. -/
theorem takeAll_concat (session : Session) (others : List Lexeme) (lexeme : Lexeme) :
    session.takeAll (others ++ [lexeme]) =
      (Move.taking lexeme).foldl act (session.takeAll others) := by
  simp only [takeAll, List.flatMap_append, List.foldl_append, List.flatMap_singleton]

/-- One session comes of another by taking some of the lexemes ahead. -/
structure Took (before : Session) (lexemes : List Lexeme) (after : Session) : Prop where
  /-- Notices are treated in the same way. -/
  mode : after.mode = before.mode
  /-- The name of the source is the same. -/
  file : after.file = before.file
  /-- The source is the same. -/
  source : after.source = before.source
  /-- Scans treat layout in the same way. -/
  skipTrivia : after.skipTrivia = before.skipTrivia
  /-- The end is no more met than before. -/
  endReached : after.endReached = before.endReached
  /-- The session has gone on by the lexemes. -/
  cursor : after.cursor = before.cursor + Lexeme.totalLength lexemes
  /-- The lexemes are not ahead any more. -/
  ahead : before.ahead = lexemes ++ after.ahead

/-- A session takes the first lexemes ahead. -/
theorem took_takeAll {session : Session} (lexemes : List Lexeme) {others : List Lexeme}
    (ahead : session.ahead = lexemes ++ others) :
    Took session lexemes (session.takeAll lexemes) := by
  induction lexemes generalizing session with
  | nil => constructor <;> rfl
  | cons lexeme more ih =>
    obtain ⟨diagnostics, log, same⟩ := session.exists_taking_eq lexeme
    have behind : ((Move.taking lexeme).foldl act session).ahead = more ++ others := by
      rw [same]
      change session.ahead.tail = _
      rw [ahead]
      rfl
    have cursor := cursor_taking session lexeme
    have later := ih behind
    rw [takeAll_cons]
    refine ⟨later.mode.trans ?_, later.file.trans ?_, later.source.trans ?_,
      later.skipTrivia.trans ?_, later.endReached.trans ?_, ?_, ?_⟩
    iterate 5 rw [same]; rfl
    · rw [later.cursor, cursor, Lexeme.totalLength_cons, Nat.add_assoc]
    · rw [ahead, List.cons_append, List.cons_append, ← later.ahead, behind]

/-- It does not matter which of them are handed out. -/
theorem Took.surface {before after : Session} {lexemes : List Lexeme}
    (took : Took before lexemes after) (kind : TokenKind) :
    Took before lexemes (after.surface kind) :=
  ⟨took.mode, took.file, took.source, took.skipTrivia, took.endReached, took.cursor, took.ahead⟩

/-- Taking lexemes hands out no token. -/
theorem token_takeAll (session : Session) (lexemes : List Lexeme) :
    (session.takeAll lexemes).token = session.token := by
  induction lexemes generalizing session with
  | nil => rfl
  | cons lexeme others ih =>
    obtain ⟨diagnostics, log, same⟩ := session.exists_taking_eq lexeme
    rw [takeAll_cons, ih, same]
    rfl

/-- The lexeme taken last is the last one of the session, and no token was handed out since. -/
theorem takeAll_place (session : Session) {passed others : List Lexeme} {lexeme : Lexeme}
    (ahead : session.ahead = passed ++ lexeme :: others) :
    let after := session.takeAll (passed ++ [lexeme])
    after.tokenPosition = session.cursor + Lexeme.totalLength passed ∧
      after.lexeme = lexeme.text ∧ after.identifierClass = none := by
  obtain ⟨diagnostics, log, same⟩ := (session.takeAll passed).exists_taking_eq lexeme
  rw [takeAll_concat, same, ← (took_takeAll passed ahead).cursor]
  exact ⟨rfl, rfl, rfl⟩

/-- A session that keeps notices keeps the remarks on the lexemes that it takes. -/
theorem passed_takeAll {session : Session} (debug : session.mode = .debug)
    (lexemes : List Lexeme) :
    Passed session (session.takeAll lexemes) (Lexeme.totalLength lexemes)
      (Lexeme.remarksFrom session.cursor lexemes) := by
  induction lexemes generalizing session with
  | nil => constructor <;> simp [debug, Lexeme.totalLength, Lexeme.remarksFrom]
  | cons lexeme others ih =>
    obtain ⟨taken, _, _⟩ := passed_taking debug lexeme
    have later := ih taken.mode
    rw [taken.cursor] at later
    rw [takeAll_cons, Lexeme.totalLength_cons, Lexeme.remarksFrom]
    exact taken.trans later

/-- A session has handed out the end of its source, behind all lexemes that were ahead. -/
structure Ended (before after : Session) : Prop where
  /-- Notices are treated in the same way. -/
  mode : after.mode = before.mode
  /-- The name of the source is the same. -/
  file : after.file = before.file
  /-- The source is the same. -/
  source : after.source = before.source
  /-- The end is met. -/
  endReached : after.endReached = true
  /-- The session has gone on to the end. -/
  cursor : after.cursor = before.cursor + Lexeme.totalLength before.ahead
  /-- Nothing is ahead any more. -/
  ahead : after.ahead = []
  /-- A session that keeps notices keeps the remarks on the lexemes, and the one on the last line
  when it meets the end for the first time. -/
  diagnostics : before.mode = .debug → after.diagnostics.toList = before.diagnostics.toList ++
    (Lexeme.remarksFrom before.cursor before.ahead ++
      remarksAt (before.cursor + Lexeme.totalLength before.ahead) 0
        (if !before.endReached && before.lacksFinalNewline then some .expectedFinalNewline
          else none)).map (·.inFile before.file)

/-- A session that takes all lexemes and meets the end has ended. -/
theorem ended_takeAll (session : Session) :
    session.Ended (Move.ending.foldl act (session.takeAll session.ahead)) := by
  have took := took_takeAll session.ahead (session.ahead.append_nil).symm
  have none : (session.takeAll session.ahead).ahead = [] := List.self_eq_append_right.mp took.ahead
  obtain ⟨diagnostics, log, met⟩ := (session.takeAll session.ahead).exists_meetEnd_eq
  have ending : Move.ending.foldl act (session.takeAll session.ahead) =
      (session.takeAll session.ahead).meetEnd.surface .endOfFile := rfl
  refine
    { mode := ?_, file := ?_, source := ?_, endReached := ?_, cursor := ?_, ahead := ?_,
      diagnostics := ?_ }
  · rw [ending, met]
    exact took.mode
  · rw [ending, met]
    exact took.file
  · rw [ending, met]
    exact took.source
  · rw [ending, met]
    rfl
  · rw [ending, met]
    exact took.cursor
  · rw [ending, met]
    exact none
  · intro debug
    have passed := passed_takeAll debug session.ahead
    have noted := diagnostics_meetEnd passed.mode
    rw [passed.diagnostics, passed.cursor, passed.endReached, passed.file, lacksFinalNewline,
      passed.source, ← lacksFinalNewline, List.append_assoc, ← List.map_append] at noted
    exact noted

/-- A session does not stop at lexemes, and scans do not hand them out. -/
def PassesOver (session : Session) (lexemes : List Lexeme) : Prop :=
  ∀ lexeme ∈ lexemes, session.Outlives lexeme ∧
    ∀ kind, lexeme.kind? = some kind → session.handsOut kind = false

/-- What a scan can come to. -/
inductive Scans (session : Session) : Except Failure Token × Session → Prop
  /-- All lexemes ahead are passed over, and the end of the source is handed out. -/
  | ended (passes : session.PassesOver session.ahead) :
    Scans session
      (.ok ⟨.endOfFile, [], session.cursor + Lexeme.totalLength session.ahead⟩,
        Move.ending.foldl act (session.takeAll session.ahead))
  /-- Behind lexemes that are passed over a token is handed out. -/
  | token (passed : List Lexeme) {others : List Lexeme} {kind : TokenKind} {text : List Char}
    (ahead : session.ahead = passed ++ .token kind text :: others)
    (passes : session.PassesOver passed) (outlives : session.Outlives (.token kind text))
    (handed : session.handsOut kind = true) :
    Scans session
      (.ok ⟨kind, text, session.cursor + Lexeme.totalLength passed⟩,
        (session.takeAll (passed ++ [.token kind text])).surface kind)
  /-- Behind lexemes that are passed over the session stops at one that is at fault. -/
  | stopped (passed : List Lexeme) {others : List Lexeme} {lexeme : Lexeme} {notice : Notice}
    (ahead : session.ahead = passed ++ lexeme :: others) (passes : session.PassesOver passed)
    (failFast : session.mode = .failFast) (noticed : lexeme.notice? = some notice)
    (grave : notice.isError = true) :
    Scans session (.error ((session.takeAll (passed ++ [lexeme])).abort notice),
      session.takeAll (passed ++ [lexeme]))

/-- Whether lexemes are passed over goes by how notices and layout are treated. -/
theorem PassesOver.congr {first second : Session} {lexemes : List Lexeme}
    (passes : first.PassesOver lexemes) (mode : second.mode = first.mode)
    (skipTrivia : second.skipTrivia = first.skipTrivia) : second.PassesOver lexemes := by
  intro lexeme member
  obtain ⟨outlives, unseen⟩ := passes lexeme member
  unfold Outlives stop? handsOut at *
  rw [mode, skipTrivia]
  exact ⟨outlives, unseen⟩

/-- Lexemes are passed over if the first one is and so are the others behind it. -/
theorem PassesOver.cons {session : Session} {lexeme : Lexeme} {others : List Lexeme}
    (outlives : session.Outlives lexeme)
    (unseen : ∀ kind, lexeme.kind? = some kind → session.handsOut kind = false)
    (behind : session.PassesOver others) : session.PassesOver (lexeme :: others) := by
  intro other member
  rcases List.mem_cons.mp member with rfl | later
  · exact ⟨outlives, unseen⟩
  · exact behind other later

/-- A session that does not outlive a lexeme stops at errors, and the lexeme is at fault. -/
theorem exists_notice_of_not_outlives {session : Session} {lexeme : Lexeme}
    (stops : ¬ session.Outlives lexeme) :
    session.mode = .failFast ∧
      ∃ notice, lexeme.notice? = some notice ∧ notice.isError = true := by
  cases mode : session.mode with
  | debug => exact absurd (outlives_of_debug mode lexeme) stops
  | failFast =>
    refine ⟨rfl, ?_⟩
    apply Decidable.byContradiction
    intro fine
    apply stops
    intro notice noticed
    apply stop?_eq_none
    simp only [Move.error?, ite_eq_right_iff, reduceCtorEq, imp_false]
    exact fun grave => fine ⟨notice, noticed, grave⟩

/-- A scan fails at a lexeme ahead that the session stops at. -/
theorem scan_stopped {session : Session} {lexeme : Lexeme} {others : List Lexeme}
    {notice : Notice} (ahead : session.ahead = lexeme :: others)
    (failFast : session.mode = .failFast) (noticed : lexeme.notice? = some notice)
    (grave : notice.isError = true) :
    let after := (Move.taking lexeme).foldl act session
    session.scan = (.error (after.abort notice), after) := by
  intro after
  have stops : (session.take lexeme).stop? (.report notice) = some notice := by
    simp [stop?, Session.take, failFast, Move.error?, grave]
  have taking : after = (session.take lexeme).bringUp notice := by
    simp only [after, Move.taking, noticed, Move.reports]
    rfl
  have lived : session.live (Move.scanning session.skipTrivia session.ahead) =
      (.error (after.abort notice), after) := by
    rw [ahead, Move.scanning, Move.taking, List.cons_append, live_take, noticed, taking,
      abort_bringUp]
    simp only [Move.reports, Option.toList_some, List.map_cons, List.map_nil,
      List.singleton_append, live, stops]
    rfl
  rw [scan, lived]
  rfl

/-- What a scan comes to behind a lexeme that is passed over is what it comes to in front of it. -/
theorem Scans.behind {session : Session} {lexeme : Lexeme} {others : List Lexeme}
    {outcome : Except Failure Token × Session} (ahead : session.ahead = lexeme :: others)
    (outlives : session.Outlives lexeme)
    (unseen : ∀ kind, lexeme.kind? = some kind → session.handsOut kind = false)
    (scans : ((Move.taking lexeme).foldl act session).Scans outcome) : session.Scans outcome := by
  have took := took_takeAll [lexeme] ahead
  rw [takeAll_cons, takeAll_nil] at took
  have front {lexemes : List Lexeme}
      (passes : ((Move.taking lexeme).foldl act session).PassesOver lexemes) :
      session.PassesOver (lexeme :: lexemes) :=
    .cons outlives unseen (passes.congr took.mode.symm took.skipTrivia.symm)
  have whole {lexemes : List Lexeme} :
      ((Move.taking lexeme).foldl act session).cursor + Lexeme.totalLength lexemes =
        session.cursor + Lexeme.totalLength (lexeme :: lexemes) := by
    rw [cursor_taking, Lexeme.totalLength_cons, Nat.add_assoc]
  have row : session.ahead = lexeme :: ((Move.taking lexeme).foldl act session).ahead := took.ahead
  cases scans with
  | ended passes =>
    have ended : session.Scans _ := .ended (by rw [row]; exact front passes)
    rwa [row, takeAll_cons, ← whole] at ended
  | token passed there passes lives handed =>
    rw [there] at row
    have token := Scans.token (lexeme :: passed) row (front passes)
      (by unfold Outlives stop? at *; rwa [← took.mode])
      (by unfold handsOut at *; rwa [← took.skipTrivia])
    rwa [List.cons_append, takeAll_cons, ← whole] at token
  | stopped passed there passes failFast noticed grave =>
    rw [there] at row
    have stopped := Scans.stopped (lexeme :: passed) row (front passes)
      (took.mode.symm.trans failFast) noticed grave
    rwa [List.cons_append, takeAll_cons] at stopped

/-- A scan comes to one of the three things. -/
theorem scans_scan (session : Session) : session.Scans session.scan := by
  generalize ahead : session.ahead = lexemes
  induction lexemes generalizing session with
  | nil =>
    have ended : session.Scans _ := .ended (by simp [PassesOver, ahead])
    rw [scan_nil ahead]
    simpa [ahead, Lexeme.totalLength] using ended
  | cons lexeme others ih =>
    by_cases outlives : session.Outlives lexeme
    · by_cases unseen : ∀ kind, lexeme.kind? = some kind → session.handsOut kind = false
      · have took := took_takeAll [lexeme] ahead
        rw [takeAll_cons, takeAll_nil] at took
        rw [scan_passed ahead outlives unseen]
        exact Scans.behind ahead outlives unseen
          (ih _ (List.cons.inj (took.ahead.symm.trans ahead)).2)
      · cases lexeme with
        | stray c => simp [Lexeme.kind?] at unseen
        | token kind text =>
          have handed : session.handsOut kind = true := by simpa [Lexeme.kind?] using unseen
          have token := Scans.token [] ahead (by simp [PassesOver]) outlives handed
          rw [List.nil_append, takeAll_cons, takeAll_nil] at token
          rw [(scan_token ahead outlives handed).1]
          exact token
    · obtain ⟨failFast, notice, noticed, grave⟩ := exists_notice_of_not_outlives outlives
      rw [scan_stopped ahead failFast noticed grave, ← takeAll_nil ((Move.taking lexeme).foldl _ _),
        ← takeAll_cons]
      exact Scans.stopped [] ahead (by simp [PassesOver]) failFast noticed grave

end Assembly8085.Session
