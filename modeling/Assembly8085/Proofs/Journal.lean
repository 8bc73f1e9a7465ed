import Assembly8085.Proofs.Coherence
import Assembly8085.Proofs.Leaves

/-!
# The log of a parse

What a session writes down is kept in three places besides: its diagnostics, the tokens that it
hands out, and the number of lines that were discarded. The log is read here as it is shown, and
the records that each part of the program has left in it are compared with what the parse says by
other means. A session that stops at errors writes down what the other one does, up to the first
error, but without the places.
-/
namespace Assembly8085

/-- The items up to the first one that is wanted, together with that one. -/
def throughFirst {α : Type} (wanted : α → Bool) (items : List α) : List α :=
  items.takeWhile (!wanted ·) ++ (items.find? wanted).toList

/-- Behind an item that is wanted there is nothing more. -/
theorem throughFirst_cons {α : Type} (wanted : α → Bool) (item : α) (others : List α) :
    throughFirst wanted (item :: others) =
      if wanted item then [item] else item :: throughFirst wanted others := by
  cases found : wanted item <;> simp [throughFirst, found]

/-- What items are mapped to may be looked at instead of them. -/
theorem throughFirst_map {α β : Type} (f : α → β) (wanted : β → Bool) (items : List α) :
    throughFirst wanted (items.map f) = (throughFirst (wanted <| f ·) items).map f := by
  induction items with
  | nil => rfl
  | cons item others ih =>
    rw [List.map_cons, throughFirst_cons, throughFirst_cons, ih]
    split <;> rfl

/-- What stands behind an item that is wanted does not count. -/
theorem throughFirst_append {α : Type} {wanted : α → Bool} {items : List α}
    (found : items.any wanted = true) (others : List α) :
    throughFirst wanted (items ++ others) = throughFirst wanted items := by
  induction items with
  | nil => contradiction
  | cons item rest ih =>
    rw [List.cons_append, throughFirst_cons, throughFirst_cons]
    split
    · rfl
    · rename_i unwanted
      rw [ih (by simpa [unwanted] using found)]

/-- Only items are kept. -/
theorem throughFirst_subset {α : Type} (wanted : α → Bool) (items : List α) :
    throughFirst wanted items ⊆ items := by
  intro item member
  rcases List.mem_append.mp member with before | last
  · exact (List.takeWhile_subset _) before
  · exact List.mem_of_find?_eq_some (Option.mem_toList.mp last)

/-- Whether a record of a level comes from a part of the program. -/
def Log.Record.isFrom (level : Log.Level) (origin : Log.Origin) (record : Log.Record) : Bool :=
  record.level = level && record.origin = origin

/-- The record of a token that was handed out. -/
def Token.record (token : Token) : Log.Record := (Log.Event.surfaced token).record

/-- Whether a diagnostic says that a token is out of order, and no line ends there or behind it. -/
def Diagnostic.runsOut (tokens : List Token) (diagnostic : Diagnostic) : Bool :=
  diagnostic.notice.isParsing && diagnostic.location.any fun location =>
    tokens.all fun token => token.kind ≠ .terminator || token.position < location.position

namespace Move

/-- The notices that moves bring up; the note on the last line is among them if it is due. -/
def notices (due : Bool) : List Move → List Notice
  | [] => []
  | .report notice :: others => notice :: notices due others
  | .meetEnd :: others => (if due then [.expectedFinalNewline] else []) ++ notices false others
  | _ :: others => notices due others

/-- A session that stops at errors lives through moves up to the first that brings up one. -/
def survived (moves : List Move) : List Move := throughFirst (·.error?.isSome) moves

/-- Behind a move that brings up an error a session does not go on. -/
theorem survived_cons (move : Move) (others : List Move) :
    survived (move :: others) =
      if move.error?.isSome then [move] else move :: survived others :=
  throughFirst_cons ..

/-- A notice is an error of its move if it is one. -/
theorem isSome_error?_report (notice : Notice) :
    (report notice).error?.isSome = notice.isError := by
  rw [error?]
  split <;> simp_all

/-- The notices of the moves up to the first error are the notices up to it. -/
theorem notices_survived (due : Bool) (moves : List Move) :
    notices due (survived moves) = throughFirst Notice.isError (notices due moves) := by
  induction moves generalizing due with
  | nil => rfl
  | cons move others ih =>
    rw [survived_cons]
    cases move with
    | report notice =>
      rw [isSome_error?_report, notices, throughFirst_cons, ← ih]
      split <;> rfl
    | meetEnd =>
      have note : Notice.isError .expectedFinalNewline = false := by decide
      cases due with
      | true => simpa [notices, throughFirst_cons, error?, note] using ih false
      | false => exact ih false
    | _ => exact ih due

/-- The notices about the order of tokens are counted among the moves. -/
theorem countP_isParsing_notices (due : Bool) (moves : List Move) :
    (notices due moves).countP Notice.isParsing = moves.countP isParsingError := by
  induction moves generalizing due with
  | nil => rfl
  | cons move others ih =>
    cases move with
    | report notice => rw [notices, List.countP_cons, List.countP_cons, ih]; rfl
    | meetEnd => cases due <;> simp [notices, isParsingError, Notice.isParsing, ih]
    | _ => simp [notices, isParsingError, ih]

/-- While statements are read, no number of errors is told. -/
theorem summarize_not_mem_readingFrom (errors : Nat) (reading : Reading) (position : Nat)
    (lexemes : List Lexeme) : .summarize errors ∉ readingFrom reading position lexemes := by
  have quiet (notice : Option Notice) : .summarize errors ∉ reports notice := by
    simp [reports]
  induction lexemes generalizing reading position with
  | nil =>
    rw [readingFrom]
    split <;> simp [ending, quiet]
  | cons lexeme others ih =>
    rw [readingFrom]
    cases lexeme with
    | stray c => simp [taking, Lexeme.kind?, quiet, ih]
    | token kind text => simp [taking, Lexeme.kind?, quiet, ih]

/-- Where a number of errors is told at the end, there is an error before. -/
theorem survived_parsing (position : Nat) (lexemes : List Lexeme) :
    survived (parsing position lexemes) =
      survived (readingFrom .betweenStatements position lexemes) := by
  rw [parsing]
  split
  · rename_i positive
    obtain ⟨move, member, parsing⟩ := List.countP_pos_iff.mp positive
    apply throughFirst_append
    refine List.any_eq_true.mpr ⟨move, member, ?_⟩
    cases move with
    | report notice => simp [error?, Notice.isError_of_isParsing parsing]
    | _ => contradiction
  · rw [List.append_nil]

end Move

namespace Session

/-- What has been written down, as it is shown, in order. -/
def records (session : Session) : List Log.Record := session.log.toList.map Log.Event.record

/-- Whether the note on the last line is still due. -/
def owesNote (session : Session) : Bool := !session.endReached && session.lacksFinalNewline

/-- What a session writes down at a move. -/
def writes (session : Session) : Move → List Log.Record
  | .take _ => []
  | .report notice => [⟨.debug, .session, session.format (session.diagnose notice)⟩]
  | .surface kind => [Token.record ⟨kind, session.lexeme, session.tokenPosition⟩]
  | .meetEnd =>
    if session.owesNote then
      [⟨.debug, .session, session.atEnd.format (session.atEnd.diagnose .expectedFinalNewline)⟩]
    else []
  | .summarize errors => [(Log.Event.parsed session.file errors).record]

/-- What a session writes down while it lives through all of some moves. -/
def journal (session : Session) : List Move → List Log.Record
  | [] => []
  | move :: others => session.writes move ++ (session.act move).journal others

/-- A move adds to the log what is written down at it. -/
theorem records_act (session : Session) (move : Move) :
    (session.act move).records = session.records ++ session.writes move := by
  have brought (session : Session) (notice : Notice) :
      (session.bringUp notice).records = session.records ++
        [⟨.debug, .session, session.format (session.diagnose notice)⟩] := by
    rw [records, log_bringUp, Array.toList_push, List.map_append]
    rfl
  cases move with
  | take lexeme => simp [act, writes, records, take]
  | report notice => exact brought session notice
  | surface kind => simp [act, writes, records, surface, write, Token.record, currentToken]
  | meetEnd =>
    have met : session.meetEnd = { if session.owesNote then
        session.atEnd.bringUp .expectedFinalNewline else session.atEnd with endReached := true } :=
      session.meetEnd_eq
    rw [act, met, writes]
    split
    · exact brought session.atEnd .expectedFinalNewline
    · exact (List.append_nil _).symm
  | summarize errors => simp [act, writes, records, write]

/-- Moves add to the log what is written down at them. -/
theorem records_foldl_act (session : Session) (moves : List Move) :
    (moves.foldl act session).records = session.records ++ session.journal moves := by
  induction moves generalizing session with
  | nil => exact (List.append_nil _).symm
  | cons move others ih => rw [List.foldl_cons, ih, records_act, journal, List.append_assoc]

/-- What is written down at moves in a row is written down one after the other. -/
theorem journal_append (session : Session) (first second : List Move) :
    session.journal (first ++ second) =
      session.journal first ++ (first.foldl act session).journal second := by
  induction first generalizing session with
  | nil => rfl
  | cons move others ih => rw [List.cons_append, journal, ih, journal, List.append_assoc]; rfl

/-- A session that stops at errors goes as far as the first one. -/
theorem snd_live_of_failFast {session : Session} (failFast : session.mode = .failFast)
    (moves : List Move) : (session.live moves).2 = (Move.survived moves).foldl act session := by
  induction moves generalizing session with
  | nil => rfl
  | cons move others ih =>
    rw [live, stop?, failFast, Move.survived_cons]
    cases move.error? with
    | some notice => rfl
    | none => exact ih ((session.mode_act move).trans failFast)

/-- A parse writes down what it does while it lives through its moves. -/
theorem records_parse (session : Session) :
    session.parse.2.records =
      (session.live (Move.parsing session.cursor session.ahead)).2.records := by
  cases through : (session.live (Move.parsing session.cursor session.ahead)).1 with
  | ok done => rw [parse_eq_ok through]; rfl
  | error failure => rw [parse_eq_error through]

/-- Whether the note on the last line is due does not depend on anything but the end. -/
theorem owesNote_act (session : Session) (move : Move) :
    (session.act move).owesNote = match move with
      | .meetEnd => false
      | _ => session.owesNote := by
  cases move with
  | report notice =>
    obtain ⟨diagnostics, log, same⟩ := session.exists_bringUp_eq notice
    rw [act, same]
    rfl
  | meetEnd =>
    obtain ⟨diagnostics, log, met⟩ := session.exists_meetEnd_eq
    rw [act, met]
    rfl
  | _ => rfl

/-- What a session diagnoses at a move. -/
def diagnoses (session : Session) : Move → List Diagnostic
  | .report notice => [session.diagnose notice]
  | .meetEnd =>
    if session.owesNote then [session.atEnd.diagnose .expectedFinalNewline] else []
  | _ => []

/-- What a session diagnoses while it lives through all of some moves. -/
def diagnosesAll (session : Session) : List Move → List Diagnostic
  | [] => []
  | move :: others => session.diagnoses move ++ (session.act move).diagnosesAll others

/-- A session that keeps notices keeps what it diagnoses. -/
theorem diagnostics_act {session : Session} (debug : session.mode = .debug) (move : Move) :
    (session.act move).diagnostics.toList =
      session.diagnostics.toList ++ session.diagnoses move := by
  cases move with
  | report notice => rw [act, diagnostics_bringUp debug, Array.toList_push]; rfl
  | meetEnd =>
    rw [act, diagnostics_meetEnd debug, diagnoses, owesNote]
    split <;> rfl
  | _ => exact (List.append_nil _).symm

/-- A session that keeps notices keeps all that it diagnoses. -/
theorem diagnostics_foldl_act {session : Session} (debug : session.mode = .debug)
    (moves : List Move) :
    (moves.foldl act session).diagnostics.toList =
      session.diagnostics.toList ++ session.diagnosesAll moves := by
  induction moves generalizing session with
  | nil => exact (List.append_nil _).symm
  | cons move others ih =>
    rw [List.foldl_cons, ih ((session.mode_act move).trans debug), diagnostics_act debug,
      diagnosesAll, List.append_assoc]

/-- What is diagnosed is what the moves bring up. -/
theorem notices_diagnosesAll (session : Session) (moves : List Move) :
    (session.diagnosesAll moves).map (·.notice) = Move.notices session.owesNote moves := by
  induction moves generalizing session with
  | nil => rfl
  | cons move others ih =>
    rw [diagnosesAll, List.map_append, ih, owesNote_act]
    cases move with
    | meetEnd =>
      rw [diagnoses, Move.notices]
      split <;> rfl
    | _ => rfl

/-- Diagnostics are shown in the same way after a move. -/
theorem format_act (session : Session) (move : Move) :
    (session.act move).format = session.format := by
  funext diagnostic
  rw [format, format, lineMap_act]

/-- Of what is written down, the part of the keeper of diagnostics is what is diagnosed, each as it
is shown. -/
theorem filter_session_journal (session : Session) (moves : List Move) :
    (session.journal moves).filter (·.isFrom .debug .session) =
      (session.diagnosesAll moves).map fun diagnostic =>
        ⟨.debug, .session, session.format diagnostic⟩ := by
  induction moves generalizing session with
  | nil => rfl
  | cons move others ih =>
    have here : (session.writes move).filter (·.isFrom .debug .session) =
        (session.diagnoses move).map fun diagnostic =>
          ⟨.debug, .session, session.format diagnostic⟩ := by
      cases move with
      | meetEnd =>
        rw [writes, diagnoses]
        split <;> rfl
      | _ => rfl
    rw [journal, List.filter_append, here, ih, format_act, diagnosesAll, List.map_append]

/-- Where no places are shown, it is what the moves bring up, each by itself. -/
theorem filter_session_journal_of_lineMap_eq_none {session : Session}
    (none : session.lineMap = none) (moves : List Move) :
    (session.journal moves).filter (·.isFrom .debug .session) =
      (Move.notices session.owesNote moves).map fun notice =>
        ⟨.debug, .session, notice.text⟩ := by
  have plain : session.format = Diagnostic.text := funext (format_of_lineMap_eq_none none)
  rw [filter_session_journal, plain, ← notices_diagnosesAll, List.map_map]
  rfl

/-- What is brought up is no token, and the cursor stays. -/
theorem journal_reports (session : Session) (notice : Option Notice) :
    (session.journal (Move.reports notice)).filter (·.isFrom .trace .scanner) = [] ∧
      ((Move.reports notice).foldl act session).cursor = session.cursor := by
  cases notice with
  | none => exact ⟨rfl, rfl⟩
  | some notice =>
    obtain ⟨_, _, position, lexeme⟩ := session.bringUp_frame notice
    refine ⟨rfl, ?_⟩
    change (session.bringUp notice).cursor = session.cursor
    rw [cursor, tokenLength, position, lexeme]
    rfl

/-- A lexeme that is taken is no token yet. -/
theorem journal_taking (session : Session) (lexeme : Lexeme) :
    (session.journal (Move.taking lexeme)).filter (·.isFrom .trace .scanner) = [] :=
  ((session.take lexeme).journal_reports lexeme.notice?).1

/-- At the end of a source its end is handed out, and nothing else; the cursor stays there. -/
theorem journal_ending (session : Session) :
    (session.journal Move.ending).filter (·.isFrom .trace .scanner) =
        [Token.record ⟨.endOfFile, [], session.cursor⟩] ∧
      (Move.ending.foldl act session).cursor = session.cursor := by
  obtain ⟨position, lexeme⟩ := session.meetEnd_place
  have note : (session.writes .meetEnd).filter (·.isFrom .trace .scanner) = [] := by
    rw [writes]
    split <;> rfl
  have last : (session.act .meetEnd).journal [.surface .endOfFile] =
      [Token.record ⟨.endOfFile, [], session.cursor⟩] := by
    rw [← position, ← lexeme]
    rfl
  constructor
  · rw [Move.ending, journal, List.filter_append, note, last]
    rfl
  · change session.meetEnd.tokenPosition + Text.byteLength session.meetEnd.lexeme = _
    rw [position, lexeme]
    rfl

/-- Of what is written down while statements are read, the part of the reader of tokens is the
tokens among the lexemes and the end behind them, which is handed out twice where it stands in a
line that is discarded. -/
theorem filter_scanner_journal_readingFrom (session : Session) (reading : Reading)
    (lexemes : List Lexeme) :
    (session.journal (Move.readingFrom reading session.cursor lexemes)).filter
        (·.isFrom .trace .scanner) =
      (Lexeme.tokensFrom session.cursor lexemes ++
        List.replicate
          (if (reading.advance (Lexeme.tokensFrom session.cursor lexemes)).finish.discards then 2
            else 1)
          (⟨.endOfFile, [], session.cursor + Lexeme.totalLength lexemes⟩ : Token)).map
        Token.record := by
  induction lexemes generalizing session reading with
  | nil =>
    obtain ⟨first, stays⟩ := session.journal_ending
    obtain ⟨quiet, still⟩ := (Move.ending.foldl act session).journal_reports reading.finish.notice
    have again := ((Move.reports reading.finish.notice).foldl act
      (Move.ending.foldl act session)).journal_ending.1
    rw [still, stays] at again
    rw [Move.readingFrom, journal_append, journal_append, List.foldl_append, List.filter_append,
      List.filter_append, first, quiet]
    change _ = List.map _ (List.replicate (if reading.finish.discards then 2 else 1) _)
    split
    · rw [again]
      rfl
    · rfl
  | cons lexeme others ih =>
    obtain ⟨_, _, _, position, last⟩ := session.taking_frame lexeme
    have behind := session.cursor_taking lexeme
    have silent := session.journal_taking lexeme
    rw [Move.readingFrom, journal_append, List.filter_append, silent, List.nil_append,
      Lexeme.totalLength_cons, ← Nat.add_assoc, ← behind]
    generalize (Move.taking lexeme).foldl act session = taken at position last behind ⊢
    cases lexeme with
    | stray c =>
      have tokens : Lexeme.tokensFrom session.cursor (.stray c :: others) =
          Lexeme.tokensFrom taken.cursor others := by
        rw [behind]
        rfl
      rw [tokens]
      exact ih taken reading
    | token kind text =>
      let token : Token := ⟨kind, text, session.cursor⟩
      have tokens : Lexeme.tokensFrom session.cursor (.token kind text :: others) =
          token :: Lexeme.tokensFrom taken.cursor others := by
        rw [behind]
        rfl
      obtain ⟨quiet, still⟩ := (taken.surface kind).journal_reports (reading.step token).notice
      have handed : taken.writes (.surface kind) = [token.record] := by
        rw [writes, position, last]
        rfl
      have later := ih ((Move.reports (reading.step token).notice).foldl act (taken.surface kind))
        (reading.step token).reading
      rw [still] at later
      rw [tokens]
      change ((taken.writes (.surface kind) ++ (taken.surface kind).journal
        (Move.reports (reading.step token).notice ++
          Move.readingFrom (reading.step token).reading taken.cursor others)).filter _) = _
      rw [handed, journal_append, List.filter_append, List.filter_append, quiet]
      exact congrArg (token.record :: ·) later

/-- The number of errors that a parse tells is no token. -/
theorem filter_scanner_journal_parsing (session : Session) (lexemes : List Lexeme) :
    (session.journal (Move.parsing session.cursor lexemes)).filter (·.isFrom .trace .scanner) =
      (session.journal (Move.readingFrom .betweenStatements session.cursor lexemes)).filter
        (·.isFrom .trace .scanner) := by
  rw [Move.parsing, journal_append, List.filter_append]
  split <;> exact List.append_nil _

/-- As long as no number of errors is told, nothing is written down about it. -/
theorem filter_parser_journal (session : Session) {moves : List Move}
    (untold : ∀ errors, .summarize errors ∉ moves) :
    (session.journal moves).filter (·.isFrom .debug .parser) = [] := by
  induction moves generalizing session with
  | nil => rfl
  | cons move others ih =>
    have here : (session.writes move).filter (·.isFrom .debug .parser) = [] := by
      cases move with
      | meetEnd =>
        rw [writes]
        split <;> rfl
      | summarize errors => exact absurd (List.mem_cons_self ..) (untold errors)
      | _ => rfl
    rw [journal, List.filter_append, here]
    exact ih (session.act move) fun errors member =>
      untold errors (List.mem_cons_of_mem _ member)

/-- A parse that is lived through to its end tells the number of errors in the order of tokens, if
there are any. -/
theorem filter_parser_journal_parsing (session : Session) (position : Nat)
    (lexemes : List Lexeme) :
    let errors := (session.diagnosesAll (Move.parsing position lexemes)).countP
      (·.notice.isParsing)
    (session.journal (Move.parsing position lexemes)).filter (·.isFrom .debug .parser) =
      if 0 < errors then [(Log.Event.parsed session.file errors).record] else [] := by
  intro errors
  let moves := Move.readingFrom .betweenStatements position lexemes
  have count : errors = moves.countP Move.isParsingError := by
    have counted := Move.countP_isParsing_notices session.owesNote (Move.parsing position lexemes)
    rw [← notices_diagnosesAll, List.countP_map] at counted
    have last : (if 0 < moves.countP Move.isParsingError then
        [Move.summarize (moves.countP Move.isParsingError)] else []).countP
          Move.isParsingError = 0 := by
      split <;> rfl
    rw [Move.parsing, List.countP_append, last] at counted
    exact counted
  have quiet : (session.journal moves).filter (·.isFrom .debug .parser) = [] :=
    session.filter_parser_journal
      fun errors => Move.summarize_not_mem_readingFrom errors .betweenStatements position lexemes
  have file (moves : List Move) (session : Session) :
      (moves.foldl act session).file = session.file := by
    induction moves generalizing session with
    | nil => rfl
    | cons move others ih => rw [List.foldl_cons, ih, file_act]
  rw [count, Move.parsing, journal_append, List.filter_append, quiet, List.nil_append]
  split
  · rw [journal, journal, writes, file]
    rfl
  · rfl

/-- A session that keeps notices writes down and keeps what belongs to the moves of its parse. -/
theorem parse_journal (session : Session) (debug : session.mode = .debug) :
    let moves := Move.parsing session.cursor session.ahead
    session.parse.2.records = session.records ++ session.journal moves ∧
      session.parse.2.diagnostics.toList =
        session.diagnostics.toList ++ session.diagnosesAll moves ∧
      session.parse.2.format = session.format := by
  intro moves
  have lived : (session.live moves).2 = moves.foldl act session :=
    congrArg Prod.snd (live_of_debug session moves debug)
  refine ⟨?_, ?_, ?_⟩
  · rw [records_parse, lived, records_foldl_act]
  · rw [parse_of_debug debug]
    exact diagnostics_foldl_act debug moves
  · funext diagnostic
    have lineMap : session.parse.2.lineMap = session.lineMap := by
      rw [parse_of_debug debug]
      exact (congrArg lineMap lived).symm.trans (session.live_settings moves).2.2
    rw [format, format, lineMap]

end Session

namespace Reading

/-- A reading that does not end with its last line but discards it came upon a token that is out of
order, and no line ends there or behind it. -/
theorem discards_finish_iff (reading : Reading) {last : Token} {tokens : List Token}
    (ordered : (tokens ++ [last]).Pairwise (·.position < ·.position)) :
    (reading.advance tokens).finish.discards = true ↔
      (reading.isDiscarding = true ∧ ∀ token ∈ tokens, token.kind ≠ .terminator) ∨
        ∃ refused ∈ reading.refused last tokens, ∀ token ∈ tokens, token.kind = .terminator →
          token.position < refused.position := by
  induction tokens generalizing reading with
  | nil =>
    cases reading <;> simp [advance, finish, isDiscarding, refused]
  | cons token others ih =>
    obtain ⟨apart, behind⟩ := List.pairwise_cons.mp ordered
    -- No line ends at the first token or behind it exactly if there is no line end at all.
    have here : (∀ other ∈ token :: others, other.kind = .terminator →
          other.position < token.position) ↔
        ∀ other ∈ token :: others, other.kind ≠ .terminator := by
      refine forall₂_congr fun other member => ⟨fun before mark => ?_, fun none mark => ?_⟩
      · rcases List.mem_cons.mp member with rfl | there
        · exact Nat.lt_irrefl _ (before mark)
        · exact Nat.lt_asymm (before mark) (apart other (List.mem_append_left _ there))
      · exact absurd mark none
    -- The first token stands in front of all that are out of order behind it.
    have there : (∃ next ∈ (reading.step token).reading.refused last others,
          ∀ other ∈ token :: others, other.kind = .terminator → other.position < next.position) ↔
        ∃ next ∈ (reading.step token).reading.refused last others,
          ∀ other ∈ others, other.kind = .terminator → other.position < next.position := by
      refine exists_congr fun next => and_congr_right fun member => ?_
      have later : token.position < next.position := apart next (refused_subset _ _ _ member)
      simp [later]
    rw [advance_cons, ih _ behind, isDiscarding_step, refused]
    simp only [List.mem_append, or_and_right, exists_or, there, ← or_assoc]
    refine or_congr_left ?_
    cases (reading.step token).notice.isSome with
    | true =>
      simp only [if_true, List.mem_singleton, exists_eq_left, here]
      simp only [Bool.or_true, Bool.and_true, decide_eq_true_eq, List.forall_mem_cons]
      tauto
    | false => simp [and_left_comm, and_assoc]

end Reading

/-- The end of a source is handed out twice exactly if a token is told to be out of order, and no
line ends there or behind it. -/
theorem any_runsOut_iff (file : String) (source : List Char) :
    let tokens := Lexeme.tokensFrom 0 (Lexeme.ofText source)
    (parseSource file source .debug).2.diagnostics.toList.any (·.runsOut tokens) = true ↔
      (Reading.betweenStatements.advance tokens).finish.discards = true := by
  intro tokens
  let last : Token := ⟨.endOfFile, [], Text.byteLength source⟩
  have ordered : (tokens ++ [last]).Pairwise (·.position < ·.position) := by
    have positions := pairwise_position_surfacedTokens file source
    rwa [surfacedTokens_eq, List.pairwise_map] at positions
  have free : Reading.betweenStatements.isDiscarding = false := rfl
  -- The places of the errors in the order of tokens are those of the tokens out of order.
  have places : (∃ remark ∈ remarksOn source, remark.notice.isParsing = true ∧
        ∀ token ∈ tokens, token.kind = .terminator → token.position < remark.position) ↔
      ∃ refused ∈ Reading.betweenStatements.refused last tokens,
        ∀ token ∈ tokens, token.kind = .terminator → token.position < refused.position := by
    have spans := congrArg (fun spans : List Span => ∃ span ∈ spans,
      ∀ token ∈ tokens, token.kind = .terminator → token.position < span.position)
      (span_filter_isParsing_remarksOn source)
    simpa [Remark.span, Token.span, and_assoc] using spans
  rw [Reading.discards_finish_iff _ ordered, free, ← places, diagnostics_parseSource,
    List.any_map, List.any_eq_true]
  simp [Diagnostic.runsOut, Remark.inFile, imp_iff_not_or]

end Assembly8085
