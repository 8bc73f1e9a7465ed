import Assembly8085.Proofs.Histories
import Assembly8085.Proofs.Outcomes

/-!
# Going on behind an error

A session that stops at an error is good for the next scan. If it is asked to scan up to the end of
its source, whatever comes of each scan, then it hands out what a session hands out that keeps
notices, but for the numbers that have no value; and it stops at exactly those places where the
other session keeps an error, in the same words.
-/
namespace Assembly8085

/-- A token that starts with a digit and has no value. -/
def Token.isMalformed (token : Token) : Bool :=
  token.kind = .integer && (Literal.decode token.text).isNone

/-- A text is at fault, and a notice says why. -/
inductive Notice.Blames : Notice → List Char → Prop
  /-- A character starts no token. -/
  | stray {c : Char} (unknown : TokenKind.startedBy? c = none) :
    Blames (.unexpectedCharacter c) [c]
  /-- A number has no value. -/
  | malformed {text : List Char} (valueless : Literal.decode text = none) :
    Blames (.malformedInteger text) text

/-- A lexeme that alone gives rise to an error starts no token or is a number without a value. -/
theorem Lexeme.cases_of_isError {lexeme : Lexeme} {notice : Notice}
    (noticed : lexeme.notice? = some notice) (grave : notice.isError = true) :
    (∃ c, lexeme = .stray c ∧ notice = .unexpectedCharacter c) ∨
      ∃ text, lexeme = .token .integer text ∧ Literal.decode text = none ∧
        notice = .malformedInteger text := by
  rcases notice?_eq_some_iff.mp noticed with stray | ⟨rfl, rfl⟩ | number
  · exact .inl stray
  · contradiction
  · exact .inr number

/-- The error that a lexeme alone gives rise to blames its text. -/
theorem Lexeme.blames_of_isError {lexeme : Lexeme} (lawful : lexeme.isLawful = true)
    {notice : Notice} (noticed : lexeme.notice? = some notice) (grave : notice.isError = true) :
    notice.Blames lexeme.text := by
  rcases cases_of_isError noticed grave with ⟨c, rfl, rfl⟩ | ⟨text, rfl, valueless, rfl⟩
  · exact .stray (Option.isNone_iff_eq_none.mp lawful)
  · exact .malformed valueless

/-- A token gives rise to an error by itself exactly if it is a number without a value. -/
theorem Token.isMalformed_iff {token : Token} :
    token.isMalformed = true ↔
      ∃ notice, (Lexeme.token token.kind token.text).notice? = some notice ∧
        notice.isError = true := by
  constructor
  · intro malformed
    simp only [isMalformed, Bool.and_eq_true, decide_eq_true_eq] at malformed
    obtain ⟨integer, valueless⟩ := malformed
    refine ⟨.malformedInteger token.text, ?_, rfl⟩
    rw [integer, Lexeme.notice?, if_pos valueless]
  · rintro ⟨notice, noticed, grave⟩
    rcases Lexeme.cases_of_isError noticed grave with ⟨c, stray, _⟩ | ⟨text, same, valueless, _⟩
    · contradiction
    · obtain ⟨integer, rfl⟩ := Lexeme.token.inj same
      simp [isMalformed, integer, valueless]

/-- Remarks in a file are errors if their notices are. -/
theorem Remark.filter_isError_inFile (file : String) (remarks : List Remark) :
    (remarks.map (·.inFile file)).filter (·.isError) =
      (remarks.filter (·.notice.isError)).map (·.inFile file) :=
  List.filter_map

namespace Session

/-- Scans a number of times at most, up to the end of the source. Where a scan fails, the next one
goes on from there. -/
def persistWithin (session : Session) :
    (rounds : Nat) → List (Except Failure Token × Session)
  | 0 => []
  | rounds + 1 =>
    let made := session.scan
    match made.1 with
    | .ok token => if token.kind = .endOfFile then [made] else made :: made.2.persistWithin rounds
    | .error _ => made :: made.2.persistWithin rounds

/-- Scans up to the end of the source, whatever comes of each scan. Every scan but the last takes a
lexeme at least. -/
def persist (session : Session) : List (Except Failure Token × Session) :=
  session.persistWithin (session.ahead.length + 1)

/-- The tokens that scans hand out. -/
def handed (run : List (Except Failure Token × Session)) : List Scanned :=
  run.filterMap fun made => made.1.toOption.map fun token => ⟨token, made.2.identifierClass⟩

/-- What scans fail with. -/
def failures (run : List (Except Failure Token × Session)) : List Failure :=
  run.filterMap fun made => match made.1 with
    | .ok _ => none
    | .error failure => some failure

/-- The errors that scans fail with, each with the place of the last lexeme. -/
def refusals (run : List (Except Failure Token × Session)) : List Diagnostic :=
  run.filterMap fun made => match made.1 with
    | .error (.aborted notice _) => some (made.2.diagnose notice)
    | _ => none

/-- The first scan hands out its token before the others do. -/
theorem handed_cons (made : Except Failure Token × Session)
    (run : List (Except Failure Token × Session)) :
    handed (made :: run) = handed [made] ++ handed run :=
  (List.filterMap_append : handed ([made] ++ run) = _)

/-- What the first scan fails with comes first. -/
theorem failures_cons (made : Except Failure Token × Session)
    (run : List (Except Failure Token × Session)) :
    failures (made :: run) = failures [made] ++ failures run :=
  (List.filterMap_append : failures ([made] ++ run) = _)

/-- The error that the first scan fails with comes first. -/
theorem refusals_cons (made : Except Failure Token × Session)
    (run : List (Except Failure Token × Session)) :
    refusals (made :: run) = refusals [made] ++ refusals run :=
  (List.filterMap_append : refusals ([made] ++ run) = _)

/-- A session has failed behind some tokens handed out: the last of them is still the last token,
and the last lexeme is the one at fault. -/
structure Halted (before : Session) (earlier : List Scanned) (failure : Failure)
    (session : Session) : Prop where
  /-- The last token handed out is the last one. -/
  token : session.token = (earlier.getLast?.map (·.token.kind)).getD before.token
  /-- No class goes with the last lexeme. -/
  identifierClass : session.identifierClass = none
  /-- The last lexeme is at fault, which is told without a place. -/
  blames : ∃ notice, failure = .aborted notice notice.text ∧ notice.Blames session.lexeme
  /-- It is the part of the source that the session gives as its place. -/
  span : Text.slice? before.source session.tokenPosition session.cursor = some session.lexeme

/-- Whether scans hand out a token sooner or later, perhaps behind others that fail. -/
def shows (session : Session) (token : Token) : Bool :=
  session.handsOut token.kind && !(session.mode = .failFast && token.isMalformed)

/-- A session outlives a token unless it stops at errors and the token is malformed. -/
theorem outlives_token_iff {session : Session} {token : Token} :
    session.Outlives (.token token.kind token.text) ↔
      (session.mode = .failFast && token.isMalformed) = false := by
  cases mode : session.mode with
  | debug =>
    have outlives := outlives_of_debug mode (.token token.kind token.text)
    simp [outlives]
  | failFast =>
    simp only [Outlives, stop?, mode, Move.error?, decide_true, Bool.true_and,
      ← Bool.not_eq_true, Token.isMalformed_iff, not_exists, not_and]
    simp

/-- No token is shown among lexemes that are passed over. -/
theorem PassesOver.filter_shows {session : Session} {lexemes : List Lexeme}
    (passes : session.PassesOver lexemes) (position : Nat) :
    (Lexeme.tokensFrom position lexemes).filter session.shows = [] := by
  rw [List.filter_eq_nil_iff]
  intro token member
  have unseen := (passes _ (Lexeme.mem_of_mem_tokensFrom member)).2 token.kind rfl
  simp [shows, unseen]

/-- There is no error among the remarks on lexemes that a session outlives which stops at them. -/
theorem filter_isError_of_outlives {session : Session} {lexemes : List Lexeme}
    (outlives : ∀ lexeme ∈ lexemes, session.Outlives lexeme) (failFast : session.mode = .failFast)
    (position : Nat) :
    (Lexeme.remarksFrom position lexemes).filter (·.notice.isError) = [] := by
  rw [List.filter_eq_nil_iff]
  intro remark member
  obtain ⟨earlier, lexeme, later, rfl, noticed, _⟩ := Lexeme.mem_remarksFrom_iff.mp member
  have lived := outlives lexeme (by simp) remark.notice noticed
  simpa [stop?, failFast, Move.error?] using lived

/-- What a scan that does not meet the end comes to, by the lexemes that it takes. -/
structure Yields (session : Session) (taken : List Lexeme)
    (made : Except Failure Token × Session) : Prop where
  /-- It takes lexemes. -/
  nonempty : taken ≠ []
  /-- They are not ahead any more. -/
  took : session.Took taken made.2
  /-- It hands out the token that is shown among them, if there is one. -/
  handed : handed [made] =
    ((Lexeme.tokensFrom session.cursor taken).filter session.shows).map Token.scanned
  /-- It fails with the error among the remarks on them, if there is one. -/
  refusals : session.mode = .failFast → refusals [made] =
    ((Lexeme.remarksFrom session.cursor taken).filter (·.notice.isError)).map
      (·.inFile session.file)
  /-- A session that keeps notices keeps the remarks on them. -/
  diagnostics : session.mode = .debug → made.2.diagnostics.toList =
    session.diagnostics.toList ++
      (Lexeme.remarksFrom session.cursor taken).map (·.inFile session.file)
  /-- A token that it hands out is the last one, and not the end of the source. -/
  answered : ∀ token, made.1 = .ok token →
    made.2.token = token.kind ∧ token.kind ≠ .endOfFile
  /-- Where it fails, the session stands at what is at fault. -/
  failed : ∀ failure, made.1 = .error failure → session.Halted [] failure made.2

/-- A scan fails with the error that the session stops at, and tells it without its place. -/
theorem Yields.failures {session : Session} {taken : List Lexeme}
    {made : Except Failure Token × Session} (yields : session.Yields taken made) :
    failures [made] =
      (Session.refusals [made]).map fun error => .aborted error.notice error.text := by
  obtain ⟨result, after⟩ := made
  cases result with
  | ok token => rfl
  | error failure =>
    obtain ⟨notice, rfl, _⟩ := (yields.failed failure rfl).blames
    rfl

/-- A session that has failed behind some tokens has failed behind the one in front of them, too. -/
theorem Halted.behind {session : Session} {taken : List Lexeme}
    {made : Except Failure Token × Session} {failure : Failure} {after : Session}
    {more : List (Except Failure Token × Session)}
    (halted : made.2.Halted (handed more) failure after) (yields : session.Yields taken made) :
    session.Halted (handed (made :: more)) failure after := by
  refine ⟨?_, halted.identifierClass, halted.blames, yields.took.source ▸ halted.span⟩
  rw [halted.token, handed_cons]
  obtain ⟨result, before⟩ := made
  cases result with
  | ok token =>
    have last : before.token = token.kind := (yields.answered token rfl).1
    have single : handed [(.ok token, before)] = [⟨token, before.identifierClass⟩] := rfl
    rw [single, List.getLast?_append, last]
    cases (handed more).getLast? <;> rfl
  | error other =>
    have last : before.token = session.token := (yields.failed other rfl).token
    rw [last]
    rfl

/-- A scan that hands out a token yields it. -/
theorem yields_token {session : Session} {passed others : List Lexeme} {kind : TokenKind}
    {text : List Char} (ahead : session.ahead = passed ++ .token kind text :: others)
    (passes : session.PassesOver passed) (outlives : session.Outlives (.token kind text))
    (handedOut : session.handsOut kind = true) (other : kind ≠ .endOfFile) :
    session.Yields (passed ++ [.token kind text])
      (.ok ⟨kind, text, session.cursor + Lexeme.totalLength passed⟩,
        (session.takeAll (passed ++ [.token kind text])).surface kind) := by
  let token : Token := ⟨kind, text, session.cursor + Lexeme.totalLength passed⟩
  have row : session.ahead = (passed ++ [.token kind text]) ++ others := by
    rw [ahead, List.append_assoc, List.singleton_append]
  have took := took_takeAll _ row
  obtain ⟨_, lexeme, _⟩ := session.takeAll_place ahead
  have lives : ∀ lexeme ∈ passed ++ [.token kind text], session.Outlives lexeme := by
    intro lexeme member
    rcases List.mem_append.mp member with before | itself
    · exact (passes lexeme before).1
    · rw [List.mem_singleton.mp itself]
      exact outlives
  have shown : session.shows token = true := by
    have fine : (session.mode = .failFast && token.isMalformed) = false :=
      outlives_token_iff.mp outlives
    simp [shows, token, handedOut, fine]
  refine ⟨by simp, took.surface kind, ?_, ?_, ?_, ?_, nofun⟩
  · have class_eq : ((session.takeAll (passed ++ [.token kind text])).surface
        kind).identifierClass = token.scanned.identifierClass := by
      simp only [surface, write, lexeme]
      rfl
    have alone : Lexeme.tokensFrom (session.cursor + Lexeme.totalLength passed)
        [.token kind text] = [token] := rfl
    rw [Lexeme.tokensFrom_append, List.filter_append, passes.filter_shows, alone,
      List.filter_cons_of_pos shown, List.filter_nil]
    simp [handed, Except.toOption, class_eq, Token.scanned, token]
  · intro failFast
    rw [filter_isError_of_outlives lives failFast]
    rfl
  · intro debug
    exact (passed_takeAll debug _).diagnostics
  · rintro _ ⟨⟩
    exact ⟨rfl, other⟩

/-- A scan that stops yields the error that it stops at. -/
theorem Placed.yields_stopped {session : Session} {passed others : List Lexeme} {lexeme : Lexeme}
    {notice : Notice} (placed : (session.takeAll (passed ++ [lexeme])).Placed)
    (lineless : (session.takeAll (passed ++ [lexeme])).Lineless)
    (ahead : session.ahead = passed ++ lexeme :: others) (passes : session.PassesOver passed)
    (failFast : session.mode = .failFast) (noticed : lexeme.notice? = some notice)
    (grave : notice.isError = true) (lawful : lexeme.isLawful = true) :
    session.Yields (passed ++ [lexeme])
      (.error ((session.takeAll (passed ++ [lexeme])).abort notice),
        session.takeAll (passed ++ [lexeme])) := by
  have row : session.ahead = (passed ++ [lexeme]) ++ others := by
    rw [ahead, List.append_assoc, List.singleton_append]
  have took := took_takeAll _ row
  obtain ⟨position, last, identifierClass⟩ := session.takeAll_place ahead
  rw [abort_of_lineMap_eq_none (lineless (took.mode.trans failFast))]
  refine ⟨by simp, took, ?_, ?_, ?_, nofun, ?_⟩
  · -- The lexeme is no token, or one that is malformed.
    have hidden : (Lexeme.tokensFrom (session.cursor + Lexeme.totalLength passed)
        [lexeme]).filter session.shows = [] := by
      cases lexeme with
      | stray c => rfl
      | token kind text =>
        let token : Token := ⟨kind, text, session.cursor + Lexeme.totalLength passed⟩
        have malformed : token.isMalformed = true :=
          Token.isMalformed_iff.mpr ⟨notice, noticed, grave⟩
        have unseen : ¬ session.shows token = true := by simp [shows, failFast, malformed]
        exact List.filter_cons_of_neg unseen
    rw [Lexeme.tokensFrom_append, List.filter_append, passes.filter_shows, hidden]
    rfl
  · intro _
    have silent := filter_isError_of_outlives (fun lexeme member => (passes lexeme member).1)
      failFast session.cursor
    rw [Lexeme.remarksFrom_append, List.filter_append, silent, ← position]
    simp [refusals, diagnose, Lexeme.remarksFrom, remarksAt, noticed, grave, Remark.inFile,
      took.file, tokenLength, last]
  · intro debug
    rw [failFast] at debug
    contradiction
  · rintro _ ⟨⟩
    refine ⟨token_takeAll .., identifierClass, ⟨notice, rfl, ?_⟩, ?_⟩
    · rw [last]
      exact Lexeme.blames_of_isError lawful noticed grave
    · rw [← took.source]
      exact placed.sound.lexeme

/-- A scan meets the end of the source behind lexemes that are passed over, or it yields what is
among the lexemes that it takes. -/
theorem Placed.exists_yields_or_ended {session : Session} (placed : session.Placed)
    (lineless : session.Lineless) :
    (∃ taken, session.Yields taken session.scan) ∨
      (session.PassesOver session.ahead ∧
        session.scan =
          (.ok ⟨.endOfFile, [], session.cursor + Lexeme.totalLength session.ahead⟩,
            Move.ending.foldl Session.act (session.takeAll session.ahead))) := by
  have lawful {passed others : List Lexeme} {lexeme : Lexeme}
      (ahead : session.ahead = passed ++ lexeme :: others) : lexeme.isLawful = true := by
    apply placed.lawful
    rw [ahead]
    exact List.mem_append_right _ (List.mem_cons_self ..)
  have behind : session.scan.2.Placed := placed.perform .scan
  have still : session.scan.2.Lineless := lineless.perform .scan
  have scans := session.scans_scan
  generalize session.scan = made at behind still scans
  cases scans with
  | ended passes => exact .inr ⟨passes, rfl⟩
  | token passed ahead passes outlives handedOut =>
    have other := Lexeme.kind_ne_endOfFile (lawful ahead)
    exact .inl ⟨_, yields_token ahead passes outlives handedOut other⟩
  | stopped passed ahead passes failFast noticed grave =>
    exact .inl ⟨_, behind.yields_stopped still ahead passes failFast noticed grave (lawful ahead)⟩

/-- What scans up to the end of the source come to. -/
structure Persists (session : Session) (run : List (Except Failure Token × Session)) : Prop where
  /-- The last one hands out the end of the source, and a session that keeps notices has kept all
  remarks then. -/
  ended : ∃ earlier last, run = earlier ++
      [(.ok ⟨.endOfFile, [], session.cursor + Lexeme.totalLength session.ahead⟩, last)] ∧
    (session.mode = .debug → last.diagnostics.toList = session.diagnostics.toList ++
      (Lexeme.remarksFrom session.cursor session.ahead ++
        remarksAt (session.cursor + Lexeme.totalLength session.ahead) 0
          (if !session.endReached && session.lacksFinalNewline then some .expectedFinalNewline
            else none)).map (·.inFile session.file))
  /-- In front of the end they hand out the tokens ahead, but for those that are not shown. -/
  tokens : handed run =
    ((Lexeme.tokensFrom session.cursor session.ahead).filter session.shows).map Token.scanned ++
      [⟨⟨.endOfFile, [], session.cursor + Lexeme.totalLength session.ahead⟩, none⟩]
  /-- They fail with the errors among the remarks on the lexemes ahead. -/
  refusals : session.mode = .failFast → refusals run =
    ((Lexeme.remarksFrom session.cursor session.ahead).filter (·.notice.isError)).map
      (·.inFile session.file)
  /-- They fail with nothing else, and tell each error without its place. -/
  failures : failures run =
    (Session.refusals run).map fun error => .aborted error.notice error.text
  /-- Where they fail, the session stands at what is at fault. -/
  halted : ∀ earlier failure after later, run = earlier ++ (.error failure, after) :: later →
    session.Halted (handed earlier) failure after

/-- A session that has only the end ahead hands it out. -/
theorem persists_ended {session : Session} (passes : session.PassesOver session.ahead) :
    session.Persists
      [(.ok ⟨.endOfFile, [], session.cursor + Lexeme.totalLength session.ahead⟩,
        Move.ending.foldl act (session.takeAll session.ahead))] := by
  refine ⟨⟨[], _, rfl, session.ended_takeAll.diagnostics⟩, ?_, ?_, rfl, ?_⟩
  · rw [passes.filter_shows]
    rfl
  · intro failFast
    rw [filter_isError_of_outlives (fun lexeme member => (passes lexeme member).1) failFast]
    rfl
  · intro earlier failure after later same
    cases earlier with
    | nil => simp at same
    | cons first more => simp at same

/-- What scans come to behind a scan that yields something. -/
theorem Persists.cons {session : Session} {taken : List Lexeme}
    {made : Except Failure Token × Session} {run : List (Except Failure Token × Session)}
    (yields : session.Yields taken made) (behind : made.2.Persists run) :
    session.Persists (made :: run) := by
  have took := yields.took
  have stop : made.2.cursor + Lexeme.totalLength made.2.ahead =
      session.cursor + Lexeme.totalLength session.ahead := by
    rw [took.cursor, took.ahead, Lexeme.totalLength_append, Nat.add_assoc]
  refine ⟨?_, ?_, ?_, ?_, ?_⟩
  · obtain ⟨earlier, last, rfl, kept⟩ := behind.ended
    rw [stop] at kept ⊢
    refine ⟨made :: earlier, last, rfl, fun debug => ?_⟩
    rw [kept (took.mode.trans debug), yields.diagnostics debug, took.endReached, took.file,
      lacksFinalNewline, took.source, ← lacksFinalNewline, took.cursor, List.append_assoc,
      ← List.map_append, ← List.append_assoc, ← Lexeme.remarksFrom_append, ← took.ahead]
  · have same : made.2.shows = session.shows := by
      funext token
      rw [shows, shows, handsOut, handsOut, took.mode, took.skipTrivia]
    rw [handed_cons, yields.handed, behind.tokens, stop, same, took.cursor, ← List.append_assoc,
      ← List.map_append, ← List.filter_append, ← Lexeme.tokensFrom_append, ← took.ahead]
  · intro failFast
    rw [refusals_cons, yields.refusals failFast, behind.refusals (took.mode.trans failFast),
      took.cursor, took.file, ← List.map_append, ← List.filter_append,
      ← Lexeme.remarksFrom_append, ← took.ahead]
  · rw [failures_cons, yields.failures, behind.failures, refusals_cons made run, List.map_append]
  · intro earlier failure after later same
    cases earlier with
    | nil =>
      obtain ⟨rfl, rfl⟩ := List.cons.inj same
      exact yields.failed failure rfl
    | cons first more =>
      obtain ⟨rfl, rfl⟩ := List.cons.inj same
      exact (behind.halted more failure after later rfl).behind yields

/-- Enough scans come to the end of the source. -/
theorem Placed.persists {session : Session} (placed : session.Placed)
    (lineless : session.Lineless) {rounds : Nat} (enough : session.ahead.length < rounds) :
    session.Persists (session.persistWithin rounds) := by
  induction rounds generalizing session with
  | zero => omega
  | succ fewer ih =>
    rw [persistWithin]
    have placedBehind : session.scan.2.Placed := placed.perform .scan
    have still : session.scan.2.Lineless := lineless.perform .scan
    rcases placed.exists_yields_or_ended lineless with ⟨taken, yields⟩ | ⟨passes, ended⟩
    · -- A lexeme at least is taken, so there is one less ahead.
      have less : session.scan.2.ahead.length < fewer := by
        have shorter := congrArg List.length yields.took.ahead
        have positive := List.length_pos_iff.mpr yields.nonempty
        rw [List.length_append] at shorter
        omega
      have whole := (ih placedBehind still less).cons yields
      cases made : session.scan.1 with
      | ok token =>
        have other := (yields.answered token made).2
        simp only [other, if_false]
        exact whole
      | error failure => exact whole
    · rw [ended]
      exact persists_ended passes

/-- Going on behind errors loses nothing and repeats nothing. A session that stops at errors and is
asked to scan up to the end of its source, whatever comes of each scan, hands out what a session
hands out that keeps notices, but for the numbers without a value; it fails with the errors that the
other session keeps, in their order, at their places and in their words; and where it fails, the
last token handed out is still the last one, and what is at fault is the last lexeme. -/
theorem persist_failFast (file : String) (source : List Char) (skipTrivia : Bool) :
    let fresh (mode : Mode) := (ofSource file source mode).setSkipTrivia skipTrivia
    let stopping := (fresh .failFast).persist
    let keeping := (fresh .debug).persist
    let stop : Token := ⟨.endOfFile, [], Text.byteLength source⟩
    ∃ early last others kept,
      stopping = early ++ [(.ok stop, last)] ∧ keeping = others ++ [(.ok stop, kept)] ∧
      handed stopping = (handed keeping).filter (!·.token.isMalformed) ∧
      refusals stopping = kept.errors ∧
      (failures stopping).map Failure.message = kept.errors.map Diagnostic.text ∧
      ∀ earlier failure after later, stopping = earlier ++ (.error failure, after) :: later →
        (fresh .failFast).Halted (handed earlier) failure after := by
  intro fresh stopping keeping stop
  have placed (mode : Mode) : (fresh mode).Placed := ⟨[], source, rfl, rfl, rfl⟩
  have lineless (mode : Mode) : (fresh mode).Lineless := lineless_ofSource file source mode
  have stops : (fresh .failFast).Persists stopping :=
    (placed _).persists (lineless _) (Nat.lt_succ_self _)
  have keeps : (fresh .debug).Persists keeping :=
    (placed _).persists (lineless _) (Nat.lt_succ_self _)
  have length (mode : Mode) : (fresh mode).cursor + Lexeme.totalLength (fresh mode).ahead =
      Text.byteLength source := (placed mode).stop
  obtain ⟨early, last, stopped, _⟩ := stops.ended
  obtain ⟨others, kept, through, remarks⟩ := keeps.ended
  rw [length] at stopped through
  have errors : refusals stopping = kept.errors := by
    -- The note about the last line is no error.
    have quiet (unended : Bool) (position : Nat) :
        (remarksAt position 0 (if unended then some .expectedFinalNewline else none)).filter
          (·.notice.isError) = [] := by
      cases unended <;> rfl
    rw [stops.refusals rfl, Session.errors, remarks rfl, List.filter_append,
      Remark.filter_isError_inFile, List.filter_append, quiet, List.append_nil]
    rfl
  have tokens : handed stopping = (handed keeping).filter (!·.token.isMalformed) := by
    have shown : (fresh .failFast).shows =
        fun token => !token.isMalformed && (fresh .debug).shows token := by
      funext token
      simp [shows, fresh, handsOut, setSkipTrivia, ofSource, Bool.and_comm]
    have behind : ([⟨stop, none⟩] : List Scanned).filter (!·.token.isMalformed) =
        [⟨stop, none⟩] := rfl
    rw [stops.tokens, keeps.tokens, length, length, List.filter_append, behind, List.filter_map,
      List.filter_filter, shown]
    rfl
  refine ⟨early, last, others, kept, stopped, through, tokens, errors, ?_, stops.halted⟩
  rw [stops.failures, errors, List.map_map]
  rfl

end Session

end Assembly8085
