import Assembly8085.CommandLine.Arguments
import Assembly8085.Proofs.Language
import Assembly8085.Proofs.Outcomes

/-!
# The exit status

The command gives up in four places: where the file cannot be read, where the tokens are shown and
one of them is at fault, where the tree is read, and behind it if errors were kept. Which of these
places a run comes to depends on the flags. Whether it comes to any of them does not: it does
exactly if there is no text or an error in it. All this is so with any tools for the arguments and
the tables.
-/
namespace Assembly8085

/-- Bytes are decoded to a text exactly if they are that text in UTF-8. -/
theorem fromUTF8?_eq_some_iff {bytes : ByteArray} {text : String} :
    String.fromUTF8? bytes = some text ↔ bytes = text.toUTF8 := by
  constructor
  · intro decoded
    unfold String.fromUTF8? at decoded
    split at decoded
    · rw [← Option.some.inj decoded]
      rfl
    · contradiction
  · rintro rfl
    have valid : text.toUTF8.IsValidUTF8 := text.isValidUTF8
    rw [String.fromUTF8?, dif_pos valid]
    rfl

/-- The contents of a file are read as a text exactly if they are that text in UTF-8. -/
theorem decodeText_eq_ok_iff {bytes : ByteArray} {source : List Char} :
    decodeText bytes = .ok source ↔ bytes = (String.ofList source).toUTF8 := by
  rw [← fromUTF8?_eq_some_iff, decodeText]
  cases String.fromUTF8? bytes with
  | none => simp
  | some text =>
    constructor
    · rintro ⟨⟩
      rw [String.ofList_toList]
    · intro same
      rw [same]
      exact congrArg Except.ok String.toList_ofList

/-- A source in which a lexeme is faulty is not parsed without an error. -/
theorem hasErrors_parseSource_of_isFaulty {file : String} {source : List Char} {lexeme : Lexeme}
    (member : lexeme ∈ Lexeme.ofText source) (faulty : lexeme.isFaulty = true) :
    (parseSource file source .debug).2.hasErrors = true := by
  rw [Session.hasErrors_eq, Bool.not_eq_true', List.isEmpty_eq_false_iff]
  intro none
  have kept := errors_parseSource_debug file source
  rw [none, Move.filterMap_error?_parsing] at kept
  have silent := (Move.filterMap_error?_readingFrom_eq_nil_iff .betweenStatements 0
    (Lexeme.ofText source)).mp kept.symm
  have fine := silent.1 lexeme member
  rw [faulty] at fine
  contradiction

/-- Scans fail at a faulty lexeme, if they do. -/
theorem Session.exists_isFaulty_of_scanWithin {session : Session} {rounds : Nat} {failure : Failure}
    (failed : (session.scanWithin rounds).1.2 = some failure) :
    ∃ lexeme ∈ session.ahead, lexeme.isFaulty = true := by
  induction rounds generalizing session with
  | zero => contradiction
  | succ rounds ih =>
    have scans := session.scans_scan
    rw [scanWithin] at failed
    generalize session.scan = outcome at scans failed
    cases scans with
    | ended passes => contradiction
    | @token passed others kind text ahead passes outlives handed =>
      have row : session.ahead = (passed ++ [.token kind text]) ++ others := by
        rw [ahead, List.append_assoc, List.singleton_append]
      have took := (took_takeAll _ row).surface kind
      dsimp only at failed
      split at failed
      · contradiction
      · obtain ⟨lexeme, member, faulty⟩ := ih failed
        refine ⟨lexeme, ?_, faulty⟩
        rw [took.ahead]
        exact List.mem_append_right _ member
    | @stopped passed others lexeme notice ahead passes failFast noticed grave =>
      refine ⟨lexeme, ?_, ?_⟩
      · rw [ahead]
        exact List.mem_append_right _ (List.mem_cons_self ..)
      · rw [Lexeme.isFaulty, noticed]
        exact grave

namespace CommandLine

/-- The status that tells what a file was read as: whether there is a text without an error. -/
def status (file : String) : Except ReadFailure (List Char) → Nat
  | .error _ => 1
  | .ok source => if (parseSource file source .debug).2.hasErrors then 1 else 0

/-- Errors are counted where there are any. -/
theorem errorCount_pos_iff (session : Session) :
    0 < errorCount session ↔ session.hasErrors = true := by
  rw [errorCount, List.countP_pos_iff, Session.hasErrors, ← Array.any_toList, List.any_eq_true]

variable (tools : Tools)

/-- A parse that comes through exits with failure if it has kept errors. -/
theorem exit_showProgram_of_ok (settings : Settings) {session : Session} {tree : SyntaxTree}
    (through : session.parse.1 = .ok tree) :
    (showProgram tools settings session).exit = if session.parse.2.hasErrors then 1 else 0 := by
  have counted := errorCount_pos_iff session.parse.2
  rw [showProgram]
  generalize session.parse = outcome at through counted
  obtain ⟨result, parsed⟩ := outcome
  obtain rfl : result = .ok tree := through
  dsimp only at counted ⊢
  simp only [← counted]
  split <;> rfl

/-- A parse that stops exits with failure. -/
theorem exit_showProgram_of_error (settings : Settings) {session : Session} {failure : Failure}
    (stopped : session.parse.1 = .error failure) :
    (showProgram tools settings session).exit = 1 := by
  rw [showProgram]
  generalize session.parse = outcome at stopped
  obtain ⟨result, parsed⟩ := outcome
  obtain rfl : result = .error failure := stopped
  rfl

/-- Reading the tree of a source exits with the status of the source, in either mode. -/
theorem exit_showProgram (settings : Settings) (file : String) (source : List Char)
    (mode : Mode) :
    (showProgram tools settings (Session.ofSource file source mode)).exit =
      status file (.ok source) := by
  cases mode with
  | debug => exact exit_showProgram_of_ok tools settings (fst_parseSource_debug file source)
  | failFast =>
    rw [status, Session.hasErrors_eq]
    cases found : (parseSource file source .debug).2.errors with
    | nil =>
      obtain ⟨after, kept, through⟩ := parseSource_failFast_of_errors_eq_nil file source found
      rw [parseSource] at through
      rw [exit_showProgram_of_ok tools settings (congrArg Prod.fst through), through]
      simp [Session.hasErrors, kept]
    | cons first others =>
      cases result : (Session.ofSource file source .failFast).parse.1 with
      | error failure => exact exit_showProgram_of_error tools settings result
      | ok tree =>
        have none := (exists_parseSource_failFast_iff file source).mp ⟨tree, result⟩
        rw [none] at found
        contradiction

/-- Showing the tokens fails only for a source that the parse finds an error in. -/
theorem hasErrors_of_showTokens {settings : Settings} {source : List Char} {mode : Mode}
    {failure : Failure}
    (failed : (showTokens tools settings (.ofSource settings.input source mode)).2 =
      some failure) :
    (parseSource settings.input source .debug).2.hasErrors = true := by
  have scanned : ((Session.ofSource settings.input source mode).setSkipTrivia
      !(settings.has .trivia)).scanAll.1.2 = some failure := by
    rw [showTokens] at failed
    split at failed
    rename_i outcome tokens stopped scanner same
    dsimp only at failed
    split at failed
    · obtain rfl := Option.some.inj failed
      exact congrArg (·.1.2) same
    · contradiction
  obtain ⟨lexeme, member, faulty⟩ := Session.exists_isFaulty_of_scanWithin scanned
  exact hasErrors_parseSource_of_isFaulty member faulty

/-- What is shown of a source does not change the status. -/
theorem exit_showSession (settings : Settings) (source : List Char) (mode : Mode) :
    (showSession tools settings (.ofSource settings.input source mode)).exit =
      status settings.input (.ok source) := by
  rw [showSession]
  split
  rename_i outcome tokens stopped shown
  cases stopped with
  | none => exact exit_showProgram tools settings settings.input source mode
  | some failure =>
    have failed : (showTokens tools settings (.ofSource settings.input source mode)).2 =
        some failure := by
      split at shown
      · exact congrArg Prod.snd shown
      · exact nomatch congrArg Prod.snd shown
    have errors := hasErrors_of_showTokens tools failed
    simp only [status, errors, if_true]

/-- The command exits with the status of what it has read. -/
theorem exit_run (settings : Settings) (read : String → Except ReadFailure (List Char)) :
    (run tools settings read).exit = status settings.input (read settings.input) := by
  cases found : read settings.input with
  | error cause => simp [run, Session.openWith, found, status]
  | ok source =>
    have shown := exit_showSession tools settings source
      (if settings.has .debug then .debug else .failFast)
    rw [← shown, run]
    simp only [Session.openWith, Option.elim, found]
    rfl

/-- Errors were kept if one of the diagnostics is grave. -/
theorem hasErrors_iff (session : Session) :
    session.hasErrors = true ↔
      ∃ diagnostic ∈ session.diagnostics, diagnostic.notice.severity = .error := by
  rw [Session.hasErrors, ← Array.any_toList, List.any_eq_true]
  simp [Diagnostic.isError, Notice.isError]

/-- The status tells of failure exactly if the contents of the file are no text in UTF-8, or are one
with an error in it. -/
theorem status_eq_one_iff (file : String) (content : Except ReadFailure ByteArray) :
    status file (content >>= decodeText) = 1 ↔
      (∀ source : List Char, content ≠ .ok (String.ofList source).toUTF8) ∨
        ∃ source : List Char, content = .ok (String.ofList source).toUTF8 ∧
          ∃ diagnostic ∈ (parseSource file source .debug).2.diagnostics,
            diagnostic.notice.severity = .error := by
  have read (source : List Char) :
      (content >>= decodeText) = .ok source ↔ content = .ok (String.ofList source).toUTF8 := by
    cases content with
    | error cause => exact ⟨nofun, nofun⟩
    | ok bytes =>
      rw [Except.ok.injEq, ← decodeText_eq_ok_iff]
      rfl
  simp only [← hasErrors_iff, ne_eq, ← read]
  cases content >>= decodeText with
  | error cause => simp [status]
  | ok source => simp [status]

/-- The status is that of failure or that of success. -/
theorem status_eq_zero_or_one (file : String) (found : Except ReadFailure (List Char)) :
    status file found = 0 ∨ status file found = 1 := by
  cases found with
  | error cause => exact .inr rfl
  | ok source =>
    rw [status]
    split
    · exact .inr rfl
    · exact .inl rfl

/-- The exit status does not depend on the flags: however arguments are understood and tables are
laid out, and whatever two lists of arguments ask for besides the same file, both runs exit with
failure if the contents of the file are no text in UTF-8 or a parse that keeps notices keeps an
error, and with success otherwise. -/
theorem exit_perform (contents : String → Except ReadFailure ByteArray)
    {first second : List String} {one other : Settings}
    (asked : tools.ask first = .run one) (askedToo : tools.ask second = .run other)
    (same : other.input = one.input) :
    let read := fun file => contents file >>= decodeText
    ∃ here there, perform tools first read = some here ∧
      perform tools second read = some there ∧ here.exit = there.exit ∧
      (here.exit = 0 ∨ here.exit = 1) ∧
      (here.exit = 1 ↔
        (∀ source : List Char, contents one.input ≠ .ok (String.ofList source).toUTF8) ∨
          ∃ source : List Char, contents one.input = .ok (String.ofList source).toUTF8 ∧
            ∃ diagnostic ∈ (parseSource one.input source .debug).2.diagnostics,
              diagnostic.notice.severity = .error) := by
  intro read
  have here := exit_run tools one read
  have there := exit_run tools other read
  have performed : perform tools first read = some (run tools one read) := by
    rw [perform, asked]
  have performedToo : perform tools second read = some (run tools other read) := by
    rw [perform, askedToo]
  rw [same] at there
  refine ⟨_, _, performed, performedToo, here.trans there.symm, ?_, ?_⟩
  · rw [here]
    exact status_eq_zero_or_one one.input (read one.input)
  · rw [here]
    exact status_eq_one_iff one.input (contents one.input)

/-- A stray character ends a run that shows the tokens and stops there, and a run that keeps notices
and goes on to show the tree and the source anew. -/
theorem exit_perform_stray :
    let tools := Tools.ofPackage ⟨"a", "1", none, "b"⟩
    let contents : String → Except ReadFailure ByteArray := fun _ => .ok "#".toUTF8
    let read := fun file => contents file >>= decodeText
    ∃ here there, perform tools ["-t", "a"] read = some here ∧
      perform tools ["-vgdp", "a"] read = some there ∧ here.exit = 1 ∧ there.exit = 1 := by
  intro tools contents read
  have munched : Lexeme.Munched [.stray '#'] := by decide
  have cut : Lexeme.ofText ['#'] = [.stray '#'] := Lexeme.ofText_flatMap munched
  have member : .stray '#' ∈ Lexeme.ofText ['#'] := by simp [cut]
  have errors : (parseSource "a" ['#'] .debug).2.hasErrors = true :=
    hasErrors_parseSource_of_isFaulty member rfl
  have asked : tools.ask ["-t", "a"] = .run ⟨"a", [.tokens], 0⟩ := by decide
  have askedToo : tools.ask ["-vgdp", "a"] = .run ⟨"a", [.debug, .tree, .print], 1⟩ := by decide
  obtain ⟨here, there, performed, performedToo, same, _, failed⟩ :=
    exit_perform tools contents asked askedToo rfl
  have status : here.exit = 1 := failed.mpr (.inr ⟨['#'], rfl, (hasErrors_iff _).mp errors⟩)
  exact ⟨here, there, performed, performedToo, status, same ▸ status⟩

end CommandLine

end Assembly8085
