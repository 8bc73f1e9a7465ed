import Assembly8085.LineMap
import Assembly8085.Log
import Assembly8085.Move

/-!
# Sessions

A session goes with one source. It holds the lexemes that are still ahead, the last one that
was taken, the diagnostics, the tree, and the log. A session that keeps notices lives through
all moves that are asked of it; any other one stops behind the first error, stays as it is
then, and can go on from there.
-/
namespace Assembly8085

/-- A source with all that is known about it so far. -/
structure Session where
  /-- The name of the source. -/
  file : String
  /-- The characters of the source. -/
  source : List Char
  /-- How notices are treated. -/
  mode : Mode
  /-- Where lines start, if places are to be shown. -/
  lineMap : Option LineMap
  /-- Whether a scan passes over layout. -/
  skipTrivia : Bool
  /-- The lexemes behind the last one taken. -/
  ahead : List Lexeme
  /-- The offset of the last lexeme taken. -/
  tokenPosition : Nat
  /-- The characters of the last lexeme taken. -/
  lexeme : List Char
  /-- The kind of the last token handed out. -/
  token : TokenKind
  /-- The class of the last lexeme if it was handed out as an identifier. -/
  identifierClass : Option IdentifierClass
  /-- Whether the end of the source has been met. -/
  endReached : Bool
  /-- The diagnostics kept. -/
  diagnostics : Array Diagnostic
  /-- The tree of the last parse that came through. -/
  tree : Option SyntaxTree
  /-- What has been written down. -/
  log : Array Log.Event
  deriving DecidableEq

/-- Why work on a session fails. -/
inductive Failure
  /-- The session met an error and keeps none. It tells the error as it shows diagnostics. -/
  | aborted (notice : Notice) (text : String)
  /-- A tree could not be put together. -/
  | fault (fault : TreeFault)
  deriving DecidableEq

/-- The wording of a failure. -/
def Failure.message : Failure → String
  | .aborted _ text => text
  | .fault found => found.message

namespace Session

/-- A fresh session on a source. -/
def ofSource (file : String) (source : List Char) (mode : Mode) : Session where
  file := file
  source := source
  mode := mode
  lineMap := if mode = .debug then some (LineMap.ofText source) else none
  skipTrivia := false
  ahead := Lexeme.ofText source
  tokenPosition := 0
  lexeme := []
  token := .endOfFile
  identifierClass := none
  endReached := false
  diagnostics := #[]
  tree := none
  log := #[.opened file (Text.byteLength source) mode]

/-- The number of bytes of the last lexeme taken. -/
def tokenLength (session : Session) : Nat := Text.byteLength session.lexeme

/-- The offset of the first byte ahead. -/
def cursor (session : Session) : Nat := session.tokenPosition + session.tokenLength

/-- The last lexeme taken as a token of the last kind handed out. -/
def currentToken (session : Session) : Token :=
  ⟨session.token, session.lexeme, session.tokenPosition⟩

/-- Whether an error was kept. -/
def hasErrors (session : Session) : Bool := session.diagnostics.any Diagnostic.isError

/-- Whether the source ends without ending its last line. -/
def lacksFinalNewline (session : Session) : Bool :=
  session.source.getLast?.any fun c => !isLineBreak c

/-- The session with another answer to whether scans pass over layout. -/
def setSkipTrivia (session : Session) (skipTrivia : Bool) : Session :=
  { session with skipTrivia }

/-- A diagnostic as it is shown: with line and column, counted from one, if both the place and
the line starts are known. -/
def format (session : Session) (diagnostic : Diagnostic) : String :=
  match session.lineMap, diagnostic.location with
  | some map, some location =>
    let (line, column) := map.place location.position
    location.file ++ ":" ++ toString (line + 1) ++ ":" ++ toString (column + 1) ++ ": " ++
      diagnostic.text
  | _, _ => diagnostic.text

/-- A notice about the last lexeme taken. -/
def diagnose (session : Session) (notice : Notice) : Diagnostic :=
  ⟨notice, some ⟨session.file, session.tokenPosition, session.tokenLength⟩⟩

/-- Where no line starts are known, a diagnostic is shown without its place. -/
theorem format_of_lineMap_eq_none {session : Session} (lineless : session.lineMap = none)
    (diagnostic : Diagnostic) : session.format diagnostic = diagnostic.text := by
  rw [format, lineless]

/-- What a session fails with that stops at a notice about its last lexeme. -/
def abort (session : Session) (notice : Notice) : Failure :=
  .aborted notice (session.format (session.diagnose notice))

/-- Where no line starts are known, the notice is told without a place. -/
theorem abort_of_lineMap_eq_none {session : Session} (lineless : session.lineMap = none)
    (notice : Notice) : session.abort notice = .aborted notice notice.text := by
  rw [abort, format_of_lineMap_eq_none lineless]
  rfl

/-- The session with an event written down. -/
def write (session : Session) (event : Log.Event) : Session :=
  { session with log := session.log.push event }

/-- The session with a notice about its last lexeme brought up, which it keeps if it keeps
notices at all. -/
def bringUp (session : Session) (notice : Notice) : Session :=
  let diagnostic := session.diagnose notice
  let written := session.write (.reported (session.format diagnostic))
  match session.mode with
  | .debug => { written with diagnostics := session.diagnostics.push diagnostic }
  | .failFast => written

/-- The session with a lexeme taken. -/
def take (session : Session) (lexeme : Lexeme) : Session :=
  { session with
    ahead := session.ahead.tail
    tokenPosition := session.cursor
    lexeme := lexeme.text
    identifierClass := none }

/-- The session with its last lexeme handed out as a token of a kind. -/
def surface (session : Session) (kind : TokenKind) : Session :=
  let handed : Session :=
    { session with
      token := kind
      identifierClass :=
        if kind = .identifier then some (.ofText session.lexeme) else none }
  handed.write (.surfaced handed.currentToken)

/-- The session at the end of its source. The first time that the end is met, a last line
without an end is worth a note. -/
def meetEnd (session : Session) : Session :=
  let behind : Session :=
    { session with
      tokenPosition := session.cursor
      lexeme := []
      identifierClass := none }
  let noted : Session :=
    if !session.endReached && session.lacksFinalNewline then
      behind.bringUp .expectedFinalNewline
    else behind
  { noted with endReached := true }

/-- The session behind a move. -/
def act (session : Session) : Move → Session
  | .take lexeme => session.take lexeme
  | .report notice => session.bringUp notice
  | .surface kind => session.surface kind
  | .meetEnd => session.meetEnd
  | .summarize errors => session.write (.parsed session.file errors)

/-- A notice changes neither how notices and layout are treated nor where lines start. -/
theorem bringUp_settings (session : Session) (notice : Notice) :
    let after := session.bringUp notice
    after.mode = session.mode ∧ after.skipTrivia = session.skipTrivia ∧
      after.lineMap = session.lineMap := by
  unfold bringUp
  split <;> exact ⟨rfl, rfl, rfl⟩

/-- A notice does not change how notices are treated. -/
@[simp] theorem mode_bringUp (session : Session) (notice : Notice) :
    (session.bringUp notice).mode = session.mode := (bringUp_settings session notice).1

/-- No move changes how notices and layout are treated, nor where lines start. -/
theorem act_settings (session : Session) (move : Move) :
    let after := session.act move
    after.mode = session.mode ∧ after.skipTrivia = session.skipTrivia ∧
      after.lineMap = session.lineMap := by
  cases move with
  | report notice => exact bringUp_settings session notice
  | meetEnd =>
    simp only [act, meetEnd]
    split
    · exact bringUp_settings _ .expectedFinalNewline
    · exact ⟨rfl, rfl, rfl⟩
  | _ => exact ⟨rfl, rfl, rfl⟩

/-- No move changes how notices are treated. -/
@[simp] theorem mode_act (session : Session) (move : Move) :
    (session.act move).mode = session.mode := (act_settings session move).1

/-- No move changes how scans treat layout. -/
@[simp] theorem skipTrivia_act (session : Session) (move : Move) :
    (session.act move).skipTrivia = session.skipTrivia := (act_settings session move).2.1

/-- No move changes where lines start. -/
@[simp] theorem lineMap_act (session : Session) (move : Move) :
    (session.act move).lineMap = session.lineMap := (act_settings session move).2.2

/-- The error that makes a session stop behind a move. -/
def stop? (session : Session) (move : Move) : Option Notice :=
  match session.mode with
  | .debug => none
  | .failFast => move.error?

/-- Lives through moves up to one that makes the session stop. It fails with the error that this
move brings up about the last lexeme. -/
def live (session : Session) : List Move → Except Failure Unit × Session
  | [] => (.ok (), session)
  | move :: others =>
    match session.stop? move with
    | some notice => (.error (session.abort notice), session.act move)
    | none => (session.act move).live others

/-- A session that keeps notices lives through all moves. -/
theorem live_of_debug (session : Session) (moves : List Move) (debug : session.mode = .debug) :
    session.live moves = (.ok (), moves.foldl act session) := by
  induction moves generalizing session with
  | nil => rfl
  | cons move others hypothesis =>
    simp [live, stop?, debug, hypothesis (session.act move)]

/-- Any other session fails if there is an error among the moves, and does so with the first. As
it knows nothing of lines, it tells the error without its place. -/
theorem fst_live_of_failFast (session : Session) (moves : List Move)
    (failFast : session.mode = .failFast) (lineless : session.lineMap = none) :
    (session.live moves).1 =
      match moves.findSome? Move.error? with
      | some notice => .error (.aborted notice notice.text)
      | none => .ok () := by
  induction moves generalizing session with
  | nil => rfl
  | cons move others hypothesis =>
    simp only [live, stop?, failFast, List.findSome?_cons]
    cases move.error? with
    | none =>
      simpa using hypothesis (session.act move) (by simpa using failFast) (by simpa using lineless)
    | some notice => exact congrArg Except.error (abort_of_lineMap_eq_none lineless notice)

/-- Brings up a notice about the last lexeme taken. -/
def report (session : Session) (notice : Notice) : Except Failure Unit × Session :=
  session.live [.report notice]

/-- Hands out the next token. -/
def scan (session : Session) : Except Failure Token × Session :=
  let (result, after) := session.live (Move.scanning session.skipTrivia session.ahead)
  (result.map fun _ => after.currentToken, after)

/-- A token handed out, and its class if it is an identifier. -/
structure Scanned where
  /-- The token. -/
  token : Token
  /-- Its class. -/
  identifierClass : Option IdentifierClass
  deriving DecidableEq

/-- Scans a number of times at most, up to the end of the source or a failure. The result is
the tokens in front of that, and the failure. -/
def scanWithin (session : Session) :
    (rounds : Nat) → (List Scanned × Option Failure) × Session
  | 0 => (([], none), session)
  | rounds + 1 =>
    match session.scan with
    | (.error failure, after) => (([], some failure), after)
    | (.ok token, after) =>
      if token.kind = .endOfFile then (([], none), after)
      else
        let ((others, failure), last) := after.scanWithin rounds
        ((⟨token, after.identifierClass⟩ :: others, failure), last)

/-- Scans up to the end of the source or a failure. Every scan but the last takes a lexeme at
least. -/
def scanAll (session : Session) : (List Scanned × Option Failure) × Session :=
  session.scanWithin (session.ahead.length + 1)

/-- The program that is ahead. -/
def program (session : Session) : Program := .ofLexemes session.cursor session.ahead

/-- Reads the tree of the program that is ahead. It sees all layout, whatever the session says
about scans. -/
def readTree (session : Session) : Except Failure SyntaxTree × Session :=
  match session.live (Move.parsing session.cursor session.ahead) with
  | (.ok (), after) => (session.program.tree.mapError .fault, after)
  | (.error failure, after) => (.error failure, after)

/-- Reads the tree of the program that is ahead and keeps it. -/
def parse (session : Session) : Except Failure SyntaxTree × Session :=
  match session.readTree with
  | (.ok tree, after) => (.ok tree, { after with tree := some tree })
  | (.error failure, after) => (.error failure, after)

end Session

/-- Reads a whole source in a fresh session: the tree or what prevented it, and the session. -/
def parseSource (file : String) (source : List Char) (mode : Mode) :
    Except Failure SyntaxTree × Session :=
  (Session.ofSource file source mode).parse

end Assembly8085
