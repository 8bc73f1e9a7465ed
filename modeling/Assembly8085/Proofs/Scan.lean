import Assembly8085.Proofs.Remarks

/-!
# Scans

A session that keeps notices hands out the tokens among its lexemes one by one, but for the layout
that it is to pass over, and then the end of the source. The moves of all these scans in a row are
listed here outright, and so are the remarks that are kept on the way.
-/
namespace Assembly8085

/-- The tokens that scans of a source hand out, layout included, up to the end. -/
def surfacedTokens (file : String) (source : List Char) : List Token :=
  let run := (Session.ofSource file source .debug).scanAll
  run.1.1.map (·.token) ++ [run.2.currentToken]

/-- No lawful token is the end of a source. -/
theorem Lexeme.kind_ne_endOfFile {kind : TokenKind} {text : List Char}
    (lawful : (Lexeme.token kind text).isLawful = true) : kind ≠ .endOfFile := by
  rintro rfl
  cases text with
  | nil => contradiction
  | cons c more =>
    simp only [isLawful, Bool.and_eq_true, beq_iff_eq] at lawful
    have starts := lawful.1
    unfold TokenKind.startedBy? at starts
    grind

namespace Session

/-- A notice leaves the lexemes alone. -/
theorem bringUp_frame (session : Session) (notice : Notice) :
    let after := session.bringUp notice
    after.skipTrivia = session.skipTrivia ∧ after.ahead = session.ahead ∧
      after.tokenPosition = session.tokenPosition ∧ after.lexeme = session.lexeme := by
  obtain ⟨diagnostics, log, same⟩ := session.exists_bringUp_eq notice
  rw [same]
  exact ⟨rfl, rfl, rfl, rfl⟩

/-- What there is to say about a lexeme that is taken changes the diagnostics and the log only. -/
theorem exists_taking_eq (session : Session) (lexeme : Lexeme) :
    ∃ diagnostics log, (Move.taking lexeme).foldl act session =
      { session.take lexeme with diagnostics, log } := by
  cases noticed : lexeme.notice? with
  | none =>
    refine ⟨session.diagnostics, session.log, ?_⟩
    simp [Move.taking, Move.reports, noticed, act, take]
  | some notice =>
    obtain ⟨diagnostics, log, same⟩ := (session.take lexeme).exists_bringUp_eq notice
    refine ⟨diagnostics, log, ?_⟩
    simpa [Move.taking, Move.reports, noticed, act] using same

/-- A lexeme that is taken is the last one, and the others are ahead. -/
theorem taking_frame (session : Session) (lexeme : Lexeme) :
    let after := (Move.taking lexeme).foldl act session
    after.mode = session.mode ∧ after.skipTrivia = session.skipTrivia ∧
      after.ahead = session.ahead.tail ∧ after.tokenPosition = session.cursor ∧
      after.lexeme = lexeme.text := by
  obtain ⟨diagnostics, log, same⟩ := session.exists_taking_eq lexeme
  rw [same]
  exact ⟨rfl, rfl, rfl, rfl, rfl⟩

/-- A lexeme that is taken moves the cursor behind it. -/
theorem cursor_taking (session : Session) (lexeme : Lexeme) :
    ((Move.taking lexeme).foldl act session).cursor =
      session.cursor + Text.byteLength lexeme.text := by
  obtain ⟨_, _, _, position, last⟩ := taking_frame session lexeme
  rw [cursor, tokenLength, position, last]

/-- No session stops at a move that brings up no error. -/
theorem stop?_eq_none (session : Session) {move : Move} (fine : move.error? = none) :
    session.stop? move = none := by
  unfold stop?
  split
  · rfl
  · exact fine

/-- A session goes on behind a move that brings up no error. -/
theorem live_cons (session : Session) {move : Move} (fine : move.error? = none)
    (others : List Move) : session.live (move :: others) = (session.act move).live others := by
  rw [live, session.stop?_eq_none fine]

/-- A session that takes a lexeme goes on from there. -/
theorem live_take (session : Session) (lexeme : Lexeme) (others : List Move) :
    session.live (.take lexeme :: others) = (session.take lexeme).live others :=
  session.live_cons rfl others

/-- A session goes on behind its end. -/
theorem live_ending_append (session : Session) (others : List Move) :
    session.live (Move.ending ++ others) = (Move.ending.foldl act session).live others := by
  rw [Move.ending, List.cons_append, List.singleton_append, live_cons _ rfl, live_cons _ rfl]
  rfl

/-- No session stops at the end of its source. -/
theorem live_ending (session : Session) :
    session.live Move.ending = (.ok (), Move.ending.foldl act session) :=
  session.live_ending_append []

/-- A session does not stop at what there is to say about a lexeme. -/
def Outlives (session : Session) (lexeme : Lexeme) : Prop :=
  ∀ notice, lexeme.notice? = some notice → session.stop? (.report notice) = none

/-- A session that keeps notices stops at none. -/
theorem outlives_of_debug {session : Session} (debug : session.mode = .debug) (lexeme : Lexeme) :
    session.Outlives lexeme := by
  intro notice noticed
  simp [stop?, debug]

/-- A session goes on behind a lexeme that it does not stop at. -/
theorem live_taking {session : Session} {lexeme : Lexeme} (outlives : session.Outlives lexeme)
    (others : List Move) :
    session.live (Move.taking lexeme ++ others) =
      ((Move.taking lexeme).foldl act session).live others := by
  rw [Move.taking, List.cons_append, live_take]
  cases noticed : lexeme.notice? with
  | none => rfl
  | some notice =>
    have goesOn : (session.take lexeme).stop? (.report notice) = none := outlives notice noticed
    simp only [Move.reports, Option.toList_some, List.map_cons, List.map_nil, List.singleton_append,
      live, goesOn]
    rfl

/-- Meeting the end leaves a session there without a lexeme. -/
theorem meetEnd_place (session : Session) :
    session.meetEnd.tokenPosition = session.cursor ∧ session.meetEnd.lexeme = [] := by
  obtain ⟨diagnostics, log, met⟩ := session.exists_meetEnd_eq
  rw [met]
  exact ⟨rfl, rfl⟩

/-- The last token handed out at the end of the source is that end. -/
theorem currentToken_ending (session : Session) :
    (Move.ending.foldl act session).currentToken = ⟨.endOfFile, [], session.cursor⟩ := by
  obtain ⟨position, last⟩ := meetEnd_place session
  rw [← position, ← last]
  rfl

/-- Past all lexemes the end of the source is handed out. -/
theorem scan_nil {session : Session} (ahead : session.ahead = []) :
    session.scan = (.ok ⟨.endOfFile, [], session.cursor⟩, Move.ending.foldl act session) := by
  rw [scan, ahead, Move.scanning, live_ending, ← currentToken_ending]
  rfl

/-- Whether scans hand out tokens of a kind. -/
def handsOut (session : Session) (kind : TokenKind) : Bool :=
  !(session.skipTrivia && kind.isTrivia)

/-- A token ahead is handed out unless scans pass over its kind or stop at it. -/
theorem scan_token {session : Session} {kind : TokenKind} {text : List Char}
    {others : List Lexeme} (ahead : session.ahead = .token kind text :: others)
    (outlives : session.Outlives (.token kind text)) (handed : session.handsOut kind = true) :
    let after := ((Move.taking (.token kind text)).foldl act session).surface kind
    session.scan = (.ok ⟨kind, text, session.cursor⟩, after) ∧ after.mode = session.mode ∧
      after.handsOut = session.handsOut ∧ after.ahead = others ∧
      after.cursor = session.cursor + Text.byteLength text ∧
      after.identifierClass = if kind = .identifier then some (.ofText text) else none := by
  obtain ⟨mode, skips, behind, position, last⟩ := taking_frame session (.token kind text)
  rw [ahead, List.tail_cons] at behind
  simp only [handsOut, Bool.not_eq_true'] at handed
  have lived : session.live (Move.scanning session.skipTrivia session.ahead) =
      (.ok (), ((Move.taking (.token kind text)).foldl act session).surface kind) := by
    rw [ahead, Move.scanning]
    simp only [Lexeme.kind?, handed, Bool.false_eq_true, if_false, live_taking outlives]
    rw [live_cons _ rfl]
    rfl
  rw [scan, lived]
  generalize (Move.taking (.token kind text)).foldl act session = taken at *
  have shown : (taken.surface kind).currentToken = ⟨kind, text, session.cursor⟩ := by
    rw [← position, show text = taken.lexeme from last.symm]
    rfl
  refine ⟨by rw [← shown]; rfl, mode, ?_, behind, ?_, ?_⟩
  · funext other
    change (!(taken.skipTrivia && other.isTrivia)) = _
    rw [skips, handsOut]
  · change taken.tokenPosition + Text.byteLength taken.lexeme = _
    rw [position, last]
    rfl
  · rw [show text = taken.lexeme from last.symm]
    rfl

/-- A scan passes over lexemes that are not handed out and that it does not stop at. -/
theorem scan_passed {session : Session} {lexeme : Lexeme} {others : List Lexeme}
    (ahead : session.ahead = lexeme :: others) (outlives : session.Outlives lexeme)
    (passed : ∀ kind, lexeme.kind? = some kind → session.handsOut kind = false) :
    session.scan = ((Move.taking lexeme).foldl act session).scan := by
  obtain ⟨_, skips, behind, _, _⟩ := taking_frame session lexeme
  rw [ahead, List.tail_cons] at behind
  have lived : session.live (Move.scanning session.skipTrivia session.ahead) =
      ((Move.taking lexeme).foldl act session).live
        (Move.scanning session.skipTrivia others) := by
    rw [ahead, Move.scanning, live_taking outlives]
    cases found : lexeme.kind? with
    | none => rfl
    | some kind =>
      have unseen := passed kind found
      simp only [handsOut, Bool.not_eq_false'] at unseen
      simp only [unseen, if_true]
  rw [scan, scan, skips, behind, lived]

end Session

/-- What a scan that hands out a token tells about it. -/
def Token.scanned (token : Token) : Session.Scanned :=
  ⟨token, if token.kind = .identifier then some (.ofText token.text) else none⟩

/-- The moves of scans of lexemes up to the end of the source. -/
def Move.scanningAll (handsOut : TokenKind → Bool) : (ahead : List Lexeme) → List Move
  | [] => ending
  | lexeme :: ahead =>
    taking lexeme ++ ((lexeme.kind?.filter handsOut).map surface).toList ++
      scanningAll handsOut ahead

namespace Session

/-- Enough scans hand out the tokens among the lexemes ahead that scans do not pass over, up to
the end of the source, and the session has lived through the moves of all of them. -/
theorem scanWithin_of_debug {session : Session} {lexemes : List Lexeme} {rounds : Nat}
    (debug : session.mode = .debug) (ahead : session.ahead = lexemes)
    (lawful : ∀ lexeme ∈ lexemes, lexeme.isLawful = true) (enough : lexemes.length < rounds) :
    session.scanWithin rounds =
      ((((Lexeme.tokensFrom session.cursor lexemes).filter
          fun token => session.handsOut token.kind).map Token.scanned, none),
        (Move.scanningAll session.handsOut lexemes).foldl act session) := by
  induction lexemes generalizing session rounds with
  | nil =>
    obtain ⟨fewer, rfl⟩ : ∃ fewer, rounds = fewer + 1 := ⟨rounds - 1, by omega⟩
    rw [scanWithin, scan_nil ahead]
    rfl
  | cons lexeme others ih =>
    have lawfulBehind := fun other member => lawful other (List.mem_cons_of_mem lexeme member)
    rw [List.length_cons] at enough
    obtain ⟨fewer, rfl⟩ : ∃ fewer, rounds = fewer + 1 := ⟨rounds - 1, by omega⟩
    by_cases passed : ∀ kind, lexeme.kind? = some kind → session.handsOut kind = false
    · -- The same number of rounds is left, behind a lexeme that no round was needed for.
      obtain ⟨mode, skips, behind, position, last⟩ := taking_frame session lexeme
      rw [ahead, List.tail_cons] at behind
      have cursor := cursor_taking session lexeme
      have same : ((Move.taking lexeme).foldl act session).handsOut = session.handsOut := by
        funext kind
        rw [handsOut, skips, handsOut]
      have later := @ih _ (fewer + 1) (mode.trans debug) behind lawfulBehind
        (Nat.lt_of_succ_lt enough)
      rw [cursor, same] at later
      have skipped : (lexeme.kind?.filter session.handsOut) = none := by
        rw [Option.filter_eq_none_iff]
        simpa using passed
      have unseen : (Lexeme.tokensFrom session.cursor (lexeme :: others)).filter
            (fun token => session.handsOut token.kind) =
          (Lexeme.tokensFrom (session.cursor + Text.byteLength lexeme.text) others).filter
            fun token => session.handsOut token.kind := by
        rw [Lexeme.tokensFrom]
        cases found : lexeme.kind? with
        | none => rfl
        | some kind => simp [passed kind found]
      rw [scanWithin, scan_passed ahead (outlives_of_debug debug lexeme) passed, ← scanWithin,
        later, unseen, Move.scanningAll, skipped]
      simp only [Option.map_none, Option.toList_none, List.append_nil, List.foldl_append]
    · cases lexeme with
      | stray c => simp [Lexeme.kind?] at passed
      | token kind text =>
        have handed : session.handsOut kind = true := by simpa [Lexeme.kind?] using passed
        have other := Lexeme.kind_ne_endOfFile (lawful _ (List.mem_cons_self ..))
        obtain ⟨scanned, mode, same, behind, cursor, identifierClass⟩ :=
          scan_token ahead (outlives_of_debug debug _) handed
        have moves : (Move.scanningAll session.handsOut (.token kind text :: others)).foldl act
            session = (Move.scanningAll session.handsOut others).foldl act
              (((Move.taking (.token kind text)).foldl act session).surface kind) := by
          have shown : (some kind).filter session.handsOut = some kind := by
            rw [Option.filter_some, if_pos handed]
          simp only [Move.scanningAll, Lexeme.kind?, shown, Option.map_some, Option.toList_some,
            List.foldl_append, List.foldl_cons, List.foldl_nil, act]
        rw [moves, scanWithin, scanned]
        generalize ((Move.taking (.token kind text)).foldl act session).surface kind = after at *
        have later := @ih _ fewer (mode.trans debug) behind lawfulBehind
          (Nat.lt_of_succ_lt_succ enough)
        rw [cursor, same] at later
        simp only [other, if_false, later, identifierClass]
        simp [Lexeme.tokensFrom, Lexeme.kind?, Lexeme.text, handed, Token.scanned]

/-- Scans up to the end of the source leave a session there. -/
theorem currentToken_scanningAll (session : Session) (handsOut : TokenKind → Bool)
    (lexemes : List Lexeme) :
    ((Move.scanningAll handsOut lexemes).foldl act session).currentToken =
      ⟨.endOfFile, [], session.cursor + Lexeme.totalLength lexemes⟩ := by
  induction lexemes generalizing session with
  | nil => exact currentToken_ending session
  | cons lexeme others ih =>
    have kept (after : Session) (surfaced : Option Move)
        (keeps : ∀ move, surfaced = some move → (after.act move).cursor = after.cursor) :
        (surfaced.toList.foldl act after).cursor = after.cursor := by
      cases surfaced with
      | none => rfl
      | some move => exact keeps move rfl
    rw [Move.scanningAll, List.foldl_append, List.foldl_append, ih, kept, cursor_taking,
      Lexeme.totalLength_cons, Nat.add_assoc]
    intro move surfaced
    obtain ⟨kind, _, rfl⟩ := Option.map_eq_some_iff.mp surfaced
    rfl

end Session

/-- The remarks on lexemes by themselves, the first one standing at an offset. -/
def Lexeme.remarksFrom (position : Nat) : List Lexeme → List Remark
  | [] => []
  | lexeme :: ahead =>
    remarksAt position (Text.byteLength lexeme.text) lexeme.notice? ++
      remarksFrom (position + Text.byteLength lexeme.text) ahead

/-- The remarks on two rows of lexemes are those on the first and those on the second. -/
theorem Lexeme.remarksFrom_append (position : Nat) (first second : List Lexeme) :
    remarksFrom position (first ++ second) =
      remarksFrom position first ++ remarksFrom (position + totalLength first) second := by
  induction first generalizing position with
  | nil => simp [remarksFrom, totalLength]
  | cons lexeme others ih =>
    rw [totalLength_cons, ← Nat.add_assoc, List.cons_append, remarksFrom, remarksFrom, ih,
      List.append_assoc]

/-- A remark on lexemes by themselves is about one of them, at the offset behind those in front of
it. -/
theorem Lexeme.mem_remarksFrom_iff {position : Nat} {lexemes : List Lexeme} {remark : Remark} :
    remark ∈ remarksFrom position lexemes ↔
      ∃ earlier lexeme later, lexemes = earlier ++ lexeme :: later ∧
        lexeme.notice? = some remark.notice ∧ remark.position = position + totalLength earlier ∧
        remark.length = Text.byteLength lexeme.text := by
  induction lexemes generalizing position with
  | nil => simp [remarksFrom]
  | cons lexeme others ih =>
    rw [remarksFrom, List.mem_append, ih]
    constructor
    · rintro (here | ⟨earlier, found, later, rfl, noticed, place, length⟩)
      · obtain ⟨notice, noticed, rfl⟩ := List.mem_map.mp here
        exact ⟨[], lexeme, others, rfl, Option.mem_toList.mp noticed, rfl, rfl⟩
      · refine ⟨lexeme :: earlier, found, later, rfl, noticed, ?_, length⟩
        rw [place, totalLength_cons, Nat.add_assoc]
    · rintro ⟨earlier, found, later, same, noticed, place, length⟩
      cases earlier with
      | nil =>
        obtain ⟨rfl, rfl⟩ := List.cons.inj same
        refine .inl (List.mem_map.mpr ⟨remark.notice, Option.mem_toList.mpr noticed, ?_⟩)
        rw [← length, show position = remark.position from place.symm]
      | cons first more =>
        obtain ⟨rfl, rfl⟩ := List.cons.inj same
        refine .inr ⟨more, found, later, rfl, noticed, ?_, length⟩
        rw [place, totalLength_cons, Nat.add_assoc]

/-- Scans up to the end of the source keep the remarks on the lexemes by themselves and the one on
the last line. -/
theorem Session.diagnostics_scanningAll {session : Session} (debug : session.mode = .debug)
    (handsOut : TokenKind → Bool) (lexemes : List Lexeme) :
    ((Move.scanningAll handsOut lexemes).foldl act session).diagnostics.toList =
      session.diagnostics.toList ++
        (Lexeme.remarksFrom session.cursor lexemes ++
          remarksAt (session.cursor + Lexeme.totalLength lexemes) 0
            (if !session.endReached && session.lacksFinalNewline then some .expectedFinalNewline
              else none)).map (·.inFile session.file) := by
  induction lexemes generalizing session with
  | nil => exact diagnostics_meetEnd debug
  | cons lexeme others ih =>
    obtain ⟨taken, _, _⟩ := passed_taking debug lexeme
    have handed : Passed session
        (((lexeme.kind?.filter handsOut).map Move.surface).toList.foldl act
          ((Move.taking lexeme).foldl act session)) (Text.byteLength lexeme.text)
        (remarksAt session.cursor (Text.byteLength lexeme.text) lexeme.notice?) := by
      cases lexeme.kind?.filter handsOut with
      | none => exact taken
      | some kind =>
        have surfaced := taken.trans (passed_surface taken.mode kind none)
        have silent (position length : Nat) : remarksAt position length none = [] := rfl
        rwa [silent, List.append_nil] at surfaced
    have kept := ih handed.mode
    rw [handed.cursor, handed.diagnostics, handed.endReached, handed.file, lacksFinalNewline,
      handed.source, ← lacksFinalNewline] at kept
    rw [Move.scanningAll, List.foldl_append, List.foldl_append, kept, Lexeme.remarksFrom,
      Lexeme.totalLength_cons, Nat.add_assoc, List.append_assoc, List.append_assoc,
      ← List.map_append]

/-- Scans of a source hand out the tokens among its lexemes that they do not pass over, end at its
end, and keep the remarks on the lexemes by themselves and the one on the last line. -/
theorem scanAll_setSkipTrivia (file : String) (source : List Char) (skipTrivia : Bool) :
    let fresh := (Session.ofSource file source .debug).setSkipTrivia skipTrivia
    let run := fresh.scanAll
    run.1 = (((Lexeme.tokensFrom 0 (Lexeme.ofText source)).filter
        fun token => fresh.handsOut token.kind).map Token.scanned, none) ∧
      run.2.currentToken = ⟨.endOfFile, [], Text.byteLength source⟩ ∧
      run.2.diagnostics.toList =
        (Lexeme.remarksFrom 0 (Lexeme.ofText source) ++
          remarksAt (Text.byteLength source) 0
            (if isUnended source then some .expectedFinalNewline else none)).map
              (·.inFile file) := by
  intro fresh run
  have debug : fresh.mode = .debug := rfl
  have start : fresh.cursor = 0 := rfl
  have scanned := Session.scanWithin_of_debug debug rfl
    (fun lexeme member => Lexeme.isLawful_of_mem (Lexeme.munched_ofText source) member)
    (Nat.lt_succ_self _)
  have ended := Session.currentToken_scanningAll fresh fresh.handsOut (Lexeme.ofText source)
  have kept := Session.diagnostics_scanningAll debug fresh.handsOut (Lexeme.ofText source)
  rw [start] at scanned
  rw [start, Nat.zero_add, Lexeme.totalLength_ofText] at ended kept
  have made : run = _ := scanned
  rw [made]
  exact ⟨rfl, ended, kept⟩

/-- Scans of a source with all its layout hand out the tokens among its lexemes, end at its end,
and keep the remarks on the lexemes by themselves and the one on the last line. -/
theorem scanAll_ofSource (file : String) (source : List Char) :
    let run := (Session.ofSource file source .debug).scanAll
    run.1 = ((Lexeme.tokensFrom 0 (Lexeme.ofText source)).map Token.scanned, none) ∧
      run.2.currentToken = ⟨.endOfFile, [], Text.byteLength source⟩ ∧
      run.2.diagnostics.toList =
        (Lexeme.remarksFrom 0 (Lexeme.ofText source) ++
          remarksAt (Text.byteLength source) 0
            (if isUnended source then some .expectedFinalNewline else none)).map
              (·.inFile file) := by
  have all : (fun token : Token =>
      (Session.ofSource file source .debug).handsOut token.kind) = fun _ => true := rfl
  obtain ⟨tokens, last, kept⟩ := scanAll_setSkipTrivia file source false
  change (Session.ofSource file source .debug).scanAll.1 =
    (((Lexeme.tokensFrom 0 (Lexeme.ofText source)).filter
      fun token => (Session.ofSource file source .debug).handsOut token.kind).map Token.scanned,
      none) at tokens
  rw [all, List.filter_eq_self.mpr fun _ _ => rfl] at tokens
  exact ⟨tokens, last, kept⟩

/-- The tokens handed out are those among the lexemes of the source, and its end. -/
theorem surfacedTokens_eq (file : String) (source : List Char) :
    surfacedTokens file source =
      Lexeme.tokensFrom 0 (Lexeme.ofText source) ++ [⟨.endOfFile, [], Text.byteLength source⟩] := by
  obtain ⟨tokens, last, _⟩ := scanAll_ofSource file source
  rw [surfacedTokens, tokens, last]
  simp [Function.comp_def, Token.scanned]

end Assembly8085
