import Assembly8085.Proofs.Lexeme
import Assembly8085.Proofs.Session

/-!
# Remarks

A remark is a notice with the stretch of the source that it is about. The remarks of a parse can
be read off the lexemes: what a lexeme gives rise to say comes before what its token does in the
order of tokens, and both are about the lexeme. A session that keeps notices keeps the remarks
as its diagnostics.
-/
namespace Assembly8085

/-- A notice about a stretch of the source. -/
structure Remark where
  /-- What it says. -/
  notice : Notice
  /-- The offset of the first byte that it is about. -/
  position : Nat
  /-- The number of bytes that it is about. -/
  length : Nat

/-- A remark about a source of a name as a diagnostic. -/
def Remark.inFile (file : String) (remark : Remark) : Diagnostic :=
  ⟨remark.notice, some ⟨file, remark.position, remark.length⟩⟩

/-- What notices, if any, say about a stretch of the source. -/
def remarksAt (position length : Nat) (notice : Option Notice) : List Remark :=
  notice.toList.map fun notice => ⟨notice, position, length⟩

namespace Reading

/-- The remarks on lexemes, the first one standing at an offset. -/
def remarks (reading : Reading) (position : Nat) : List Lexeme → List Remark
  | [] => []
  | lexeme :: ahead =>
    let length := Text.byteLength lexeme.text
    remarksAt position length lexeme.notice? ++
      match lexeme.kind? with
      | some kind =>
        let step := reading.step ⟨kind, lexeme.text, position⟩
        remarksAt position length step.notice ++ step.reading.remarks (position + length) ahead
      | none => reading.remarks (position + length) ahead

/-- The remarks on the end of a source, which stands at an offset; its last line may lack an
end. -/
def lastRemarks (reading : Reading) (position : Nat) (unended : Bool) : List Remark :=
  remarksAt position 0 (if unended then some .expectedFinalNewline else none) ++
    remarksAt position 0 reading.finish.notice

/-- The remarks on lexemes and on the end of the source behind them. -/
def remarksToEnd (reading : Reading) (position : Nat) (unended : Bool) (lexemes : List Lexeme) :
    List Remark :=
  reading.remarks position lexemes ++
    (reading.advance (Lexeme.tokensFrom position lexemes)).lastRemarks
      (position + Lexeme.totalLength lexemes) unended

/-- Without lexemes the remarks are those on the end of the source. -/
theorem remarksToEnd_nil (reading : Reading) (position : Nat) (unended : Bool) :
    reading.remarksToEnd position unended [] = reading.lastRemarks position unended := by
  simp [remarksToEnd, remarks, Lexeme.tokensFrom, Lexeme.totalLength]

/-- The remarks on a token come before those on what is behind it. -/
theorem remarksToEnd_token (reading : Reading) (position : Nat) (unended : Bool)
    (kind : TokenKind) (text : List Char) (ahead : List Lexeme) :
    reading.remarksToEnd position unended (.token kind text :: ahead) =
      remarksAt position (Text.byteLength text) (Lexeme.token kind text).notice? ++
        (remarksAt position (Text.byteLength text) (reading.step ⟨kind, text, position⟩).notice ++
          (reading.step ⟨kind, text, position⟩).reading.remarksToEnd
            (position + Text.byteLength text) unended ahead) := by
  simp [remarksToEnd, remarks, Lexeme.tokensFrom, Lexeme.kind?, Lexeme.text,
    Lexeme.totalLength_cons, Nat.add_assoc]

/-- The remarks on a stray character come before those on what is behind it. -/
theorem remarksToEnd_stray (reading : Reading) (position : Nat) (unended : Bool) (c : Char)
    (ahead : List Lexeme) :
    reading.remarksToEnd position unended (.stray c :: ahead) =
      remarksAt position c.utf8Size (some (.unexpectedCharacter c)) ++
        reading.remarksToEnd (position + c.utf8Size) unended ahead := by
  simp [remarksToEnd, remarks, Lexeme.tokensFrom, Lexeme.kind?, Lexeme.text, Lexeme.notice?,
    Lexeme.totalLength_cons, Nat.add_assoc]

/-- There are no remarks on lexemes of which neither the texts nor the order gives rise to any. -/
theorem remarks_eq_nil {reading : Reading} {position : Nat} {lexemes : List Lexeme}
    (each : ∀ lexeme ∈ lexemes, lexeme.notice? = none)
    (order : reading.notices (Lexeme.tokensFrom position lexemes) = []) :
    reading.remarks position lexemes = [] := by
  induction lexemes generalizing reading position with
  | nil => rfl
  | cons lexeme ahead ih =>
    have later := fun other member => each other (List.mem_cons_of_mem _ member)
    rw [remarks, each lexeme (List.mem_cons_self ..)]
    cases lexeme with
    | stray c => exact ih later order
    | token kind text =>
      simp only [Lexeme.tokensFrom, Lexeme.kind?, notices, List.append_eq_nil_iff,
        Option.toList_eq_nil_iff] at order
      simp only [Lexeme.kind?, order.1, ih later order.2]
      rfl

end Reading

namespace Session

/-- A session has gone on by some bytes and has kept remarks, and nothing else that matters to
the diagnostics to come is changed. -/
structure Passed (before after : Session) (bytes : Nat) (remarks : List Remark) : Prop where
  /-- Notices are still kept. -/
  mode : after.mode = .debug
  /-- The name of the source is the same. -/
  file : after.file = before.file
  /-- The source is the same. -/
  source : after.source = before.source
  /-- The end is no more met than before. -/
  endReached : after.endReached = before.endReached
  /-- The session has gone on by that many bytes. -/
  cursor : after.cursor = before.cursor + bytes
  /-- The remarks were kept. -/
  diagnostics : after.diagnostics.toList =
    before.diagnostics.toList ++ remarks.map (·.inFile before.file)

/-- A session goes on from where it has come to. -/
theorem Passed.trans {first second third : Session} {few more : Nat} {here behind : List Remark}
    (before : Passed first second few here) (after : Passed second third more behind) :
    Passed first third (few + more) (here ++ behind) where
  mode := after.mode
  file := after.file.trans before.file
  source := after.source.trans before.source
  endReached := after.endReached.trans before.endReached
  cursor := by rw [after.cursor, before.cursor, Nat.add_assoc]
  diagnostics := by
    rw [after.diagnostics, before.diagnostics, before.file, List.append_assoc, List.map_append]

/-- Bringing up notices keeps them about the last lexeme, which stays the last one. -/
theorem passed_reports {session : Session} (debug : session.mode = .debug)
    (notice : Option Notice) :
    let after := (Move.reports notice).foldl act session
    Passed session after 0 (remarksAt session.tokenPosition session.tokenLength notice) ∧
      after.tokenPosition = session.tokenPosition ∧ after.tokenLength = session.tokenLength := by
  cases notice with
  | none => exact ⟨by constructor <;> simp [Move.reports, remarksAt, debug], rfl, rfl⟩
  | some notice =>
    refine ⟨?_, ?_, ?_⟩
    · constructor <;> simp [Move.reports, remarksAt, act, bringUp, debug, write, cursor,
        tokenLength, diagnose, Remark.inFile]
    · simp [Move.reports, act, bringUp, debug, write]
    · simp [Move.reports, act, bringUp, debug, write, tokenLength]

/-- Taking a lexeme keeps what is to be said about it, at its place. -/
theorem passed_taking {session : Session} (debug : session.mode = .debug) (lexeme : Lexeme) :
    let after := (Move.taking lexeme).foldl act session
    Passed session after (Text.byteLength lexeme.text)
        (remarksAt session.cursor (Text.byteLength lexeme.text) lexeme.notice?) ∧
      after.tokenPosition = session.cursor ∧
      after.tokenLength = Text.byteLength lexeme.text := by
  have taken : Passed session (session.take lexeme) (Text.byteLength lexeme.text) [] := by
    constructor <;> simp [take, debug, cursor, tokenLength]
  obtain ⟨reported, position, length⟩ := passed_reports taken.mode lexeme.notice?
  exact ⟨taken.trans reported, position, length⟩

/-- Handing out a token and bringing up what it does in the order of tokens keeps the latter. -/
theorem passed_surface {session : Session} (debug : session.mode = .debug) (kind : TokenKind)
    (notice : Option Notice) :
    Passed session ((Move.surface kind :: Move.reports notice).foldl act session) 0
      (remarksAt session.tokenPosition session.tokenLength notice) := by
  have surfaced : Passed session (session.surface kind) 0 [] := by
    constructor <;> simp [surface, write, debug, cursor, tokenLength]
  exact surfaced.trans (passed_reports surfaced.mode notice).1

/-- A session that has met its end does not change by what it keeps when it meets it again. -/
theorem diagnostics_ending {session : Session} (met : session.endReached = true) :
    (Move.ending.foldl act session).diagnostics = session.diagnostics := by
  simp [Move.ending, act, meetEnd, met, surface, write]

/-- Meeting the end keeps the note about the last line, at the end. -/
theorem diagnostics_meetEnd {session : Session} (debug : session.mode = .debug) :
    session.meetEnd.diagnostics.toList =
      session.diagnostics.toList ++
        (remarksAt session.cursor 0
          (if !session.endReached && session.lacksFinalNewline then some .expectedFinalNewline
            else none)).map (·.inFile session.file) := by
  rw [meetEnd_eq]
  split
  · simp [atEnd, bringUp, debug, write, remarksAt, diagnose, Remark.inFile, tokenLength]
  · simp [atEnd, remarksAt]

/-- Meeting the end leaves a session there. -/
theorem meetEnd_frame {session : Session} (debug : session.mode = .debug) :
    session.meetEnd.mode = .debug ∧ session.meetEnd.file = session.file ∧
      session.meetEnd.endReached = true ∧ session.meetEnd.tokenPosition = session.cursor ∧
      session.meetEnd.tokenLength = 0 := by
  rw [meetEnd_eq]
  split <;> simp [atEnd, bringUp, debug, write, tokenLength]

/-- The end of a source keeps the remarks on it. -/
theorem diagnostics_foldl_ending {session : Session} (debug : session.mode = .debug)
    (reading : Reading) :
    ((Move.readingFrom reading session.cursor []).foldl act session).diagnostics.toList =
      session.diagnostics.toList ++
        (reading.lastRemarks session.cursor
          (!session.endReached && session.lacksFinalNewline)).map (·.inFile session.file) := by
  obtain ⟨mode, file, met, position, length⟩ := meetEnd_frame debug
  have reported := passed_surface mode .endOfFile reading.finish.notice
  have kept := reported.diagnostics
  rw [diagnostics_meetEnd debug, position, length, file] at kept
  have behind := diagnostics_ending (reported.endReached.trans met)
  have again : ((if reading.finish.discards then Move.ending else []).foldl act
      ((Move.surface .endOfFile :: Move.reports reading.finish.notice).foldl act
        session.meetEnd)).diagnostics =
      ((Move.surface .endOfFile :: Move.reports reading.finish.notice).foldl act
        session.meetEnd).diagnostics := by
    split
    · exact behind
    · rfl
  simp only [Move.readingFrom, List.foldl_append] at again ⊢
  rw [Reading.lastRemarks, List.map_append, ← List.append_assoc, ← kept]
  exact congrArg Array.toList again

/-- A session that reads lexemes keeps the remarks on them and on the end of the source. -/
theorem diagnostics_foldl_readingFrom {session : Session} (debug : session.mode = .debug)
    (reading : Reading) (lexemes : List Lexeme) :
    ((Move.readingFrom reading session.cursor lexemes).foldl act session).diagnostics.toList =
      session.diagnostics.toList ++
        (reading.remarksToEnd session.cursor (!session.endReached && session.lacksFinalNewline)
          lexemes).map (·.inFile session.file) := by
  induction lexemes generalizing session reading with
  | nil =>
    rw [Reading.remarksToEnd_nil]
    exact diagnostics_foldl_ending debug reading
  | cons lexeme ahead ih =>
    obtain ⟨taken, position, length⟩ := passed_taking debug lexeme
    -- What comes behind the lexeme depends on what it leaves of the session alone.
    have later {after : Session} {remarks : List Remark} (behind : Reading)
        (passed : Passed session after (Text.byteLength lexeme.text) remarks) :
        ((Move.readingFrom behind (session.cursor + Text.byteLength lexeme.text) ahead).foldl act
          after).diagnostics.toList =
        session.diagnostics.toList ++
          (remarks ++ behind.remarksToEnd (session.cursor + Text.byteLength lexeme.text)
            (!session.endReached && session.lacksFinalNewline) ahead).map
              (·.inFile session.file) := by
      have kept := ih passed.mode behind
      rw [passed.cursor, passed.diagnostics, passed.endReached, passed.file,
        lacksFinalNewline, passed.source] at kept
      rw [kept, List.map_append, List.append_assoc]
      rfl
    cases lexeme with
    | stray c =>
      rw [Reading.remarksToEnd_stray]
      simp only [Move.readingFrom, Lexeme.kind?, List.foldl_append]
      exact later reading taken
    | token kind text =>
      rw [Reading.remarksToEnd_token, ← List.append_assoc]
      let step := reading.step ⟨kind, text, session.cursor⟩
      have stepped := taken.trans (passed_surface taken.mode kind step.notice)
      rw [position, length] at stepped
      simp only [Move.readingFrom, Lexeme.kind?, List.foldl_append, List.cons_append,
        List.foldl_cons]
      exact later step.reading stepped

/-- A session that keeps notices keeps the remarks on what is ahead. -/
theorem diagnostics_parse_of_debug {session : Session} (debug : session.mode = .debug) :
    session.parse.2.diagnostics.toList =
      session.diagnostics.toList ++
        (Reading.betweenStatements.remarksToEnd session.cursor
          (!session.endReached && session.lacksFinalNewline) session.ahead).map
            (·.inFile session.file) := by
  rw [parse_of_debug debug]
  have read := diagnostics_foldl_readingFrom debug .betweenStatements session.ahead
  simp only [Move.parsing, List.foldl_append]
  split
  · simpa [act, write] using read
  · exact read

end Session

/-- Whether a source has a last line without an end. -/
def isUnended (source : List Char) : Bool := source.getLast?.any fun c => !isLineBreak c

/-- The remarks on a source. -/
def remarksOn (source : List Char) : List Remark :=
  Reading.betweenStatements.remarksToEnd 0 (isUnended source) (Lexeme.ofText source)

/-- A parse that keeps notices keeps the remarks on the source. -/
theorem diagnostics_parseSource (file : String) (source : List Char) :
    (parseSource file source .debug).2.diagnostics.toList =
      (remarksOn source).map (·.inFile file) := by
  rw [parseSource, Session.diagnostics_parse_of_debug rfl]
  rfl

end Assembly8085
