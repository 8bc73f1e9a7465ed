import Assembly8085.Proofs.Coherence
import Assembly8085.Proofs.Findings

/-!
# Behind the end

Once the end of a source was handed out, it is all that is ever handed out again. Further calls come
through and leave everything as it is, and each parse finds a tree without statements. The note
about the last line comes up when the end is met for the first time and at no other time, however
often readings run into the end and start there.
-/
namespace Assembly8085

namespace Move

/-- Moves of which none but the end is handed out behind the end, where it may be met before, and
which leave the note about the last line to it. -/
inductive Conclusive : (ended : Bool) → List Move → Prop
  /-- Nothing happens. -/
  | done {ended : Bool} : Conclusive ended []
  /-- In front of the end a lexeme is taken. -/
  | take {lexeme : Lexeme} {others : List Move} (behind : Conclusive false others) :
    Conclusive false (.take lexeme :: others)
  /-- In front of the end a token is handed out. -/
  | surface {kind : TokenKind} {others : List Move} (behind : Conclusive false others) :
    Conclusive false (.surface kind :: others)
  /-- A notice comes up that is not the one about the last line. -/
  | report {ended : Bool} {notice : Notice} {others : List Move}
    (other : notice ≠ .expectedFinalNewline) (behind : Conclusive ended others) :
    Conclusive ended (.report notice :: others)
  /-- The end is met and handed out. -/
  | ending {ended : Bool} {others : List Move} (behind : Conclusive true others) :
    Conclusive ended (Move.ending ++ others)
  /-- The number of errors is told. -/
  | summarize {ended : Bool} {errors : Nat} {others : List Move}
    (behind : Conclusive ended others) : Conclusive ended (.summarize errors :: others)

/-- A notice may be brought up unless it is the one about the last line. -/
theorem Conclusive.reports {ended : Bool} {others : List Move} (behind : Conclusive ended others)
    {notice : Option Notice} (other : notice ≠ some .expectedFinalNewline) :
    Conclusive ended (Move.reports notice ++ others) := by
  cases notice with
  | none => exact behind
  | some notice => exact .report (fun same => other (congrArg some same)) behind

/-- In front of the end a lexeme may be taken with what it gives rise to say. -/
theorem Conclusive.taking {others : List Move} (behind : Conclusive false others)
    (lexeme : Lexeme) : Conclusive false (Move.taking lexeme ++ others) := by
  refine .take (behind.reports fun noticed => ?_)
  simp [Lexeme.notice?_eq_some_iff] at noticed

/-- A notice about the order of tokens is not the one about the last line. -/
theorem ne_expectedFinalNewline {notice : Option Notice}
    (order : ∀ found, notice = some found → found.isParsing = true) :
    notice ≠ some .expectedFinalNewline := by
  intro same
  have parsing := order _ same
  contradiction

/-- A scan is conclusive if nothing is ahead where the end is met. -/
theorem conclusive_scanning (skipTrivia : Bool) {ended : Bool} {ahead : List Lexeme}
    (none : ended = true → ahead = []) : Conclusive ended (scanning skipTrivia ahead) := by
  induction ahead with
  | nil => exact .ending .done
  | cons lexeme others ih =>
    cases ended with
    | true => exact absurd (none rfl) (List.cons_ne_nil lexeme others)
    | false =>
      have later := ih Bool.false_ne_true.elim
      rw [scanning]
      apply Conclusive.taking
      cases lexeme.kind? with
      | none => exact later
      | some kind =>
        dsimp only
        split
        · exact later
        · exact .surface .done

/-- A reading is conclusive if nothing is ahead where the end is met, and if what comes behind the
reading is conclusive. -/
theorem conclusive_readingFrom (reading : Reading) (position : Nat) {ended : Bool}
    {ahead : List Lexeme} (none : ended = true → ahead = []) {last : List Move}
    (behind : Conclusive true last) :
    Conclusive ended (readingFrom reading position ahead ++ last) := by
  induction ahead generalizing reading position with
  | nil =>
    have again : Conclusive true ((if reading.finish.discards then ending else []) ++ last) := by
      split
      · exact .ending behind
      · exact behind
    simp only [readingFrom, List.append_assoc]
    exact .ending (again.reports (ne_expectedFinalNewline fun _ => reading.isParsing_finish))
  | cons lexeme others ih =>
    cases ended with
    | true => exact absurd (none rfl) (List.cons_ne_nil lexeme others)
    | false =>
      have later (reading : Reading) (position : Nat) := ih reading position Bool.false_ne_true.elim
      rw [readingFrom, List.append_assoc]
      apply Conclusive.taking
      cases lexeme.kind? with
      | none => exact later _ _
      | some kind =>
        simp only [List.cons_append, List.append_assoc]
        exact .surface ((later _ _).reports
          (ne_expectedFinalNewline fun _ => reading.isParsing_step _))

/-- A parse is conclusive if nothing is ahead where the end is met. -/
theorem conclusive_parsing (position : Nat) {ended : Bool} {ahead : List Lexeme}
    (none : ended = true → ahead = []) : Conclusive ended (parsing position ahead) := by
  apply conclusive_readingFrom _ _ none
  split
  · exact .summarize .done
  · exact .done

/-- Where nothing is ahead, a parse hands out the end and says nothing. -/
theorem parsing_nil (position : Nat) : parsing position [] = ending := rfl

end Move

namespace Session

/-- The number of notes on the last line that are kept. -/
def finalNotes (session : Session) : Nat :=
  session.diagnostics.toList.countP (·.notice = .expectedFinalNewline)

/-- Behind the end nothing but the end is the last token, and where notices are kept, the note on
the last line is kept once for the end, besides a number of times for callers. -/
structure Rests (told : Nat) (session : Session) : Prop where
  /-- Where the end is met, it is the last token handed out. -/
  token : session.endReached = true → session.token = .endOfFile ∧ session.lexeme = []
  /-- The note is kept if the end is met and the last line has none. -/
  noted : session.mode = .debug → session.finalNotes =
    told + if session.endReached && session.lacksFinalNewline then 1 else 0

/-- A notice adds a note on the last line if it is one. -/
theorem finalNotes_bringUp {session : Session} (debug : session.mode = .debug) (notice : Notice) :
    (session.bringUp notice).finalNotes =
      session.finalNotes + if notice = .expectedFinalNewline then 1 else 0 := by
  rw [finalNotes, diagnostics_bringUp debug, Array.toList_push, List.countP_append,
    List.countP_singleton]
  by_cases same : notice = .expectedFinalNewline
  · simp [finalNotes, diagnose, same]
  · simp [finalNotes, diagnose, same]

/-- Meeting the end adds a note on the last line if the end was not met before and the line has no
end. -/
theorem finalNotes_meetEnd {session : Session} (debug : session.mode = .debug) :
    session.meetEnd.finalNotes =
      session.finalNotes + if !session.endReached && session.lacksFinalNewline then 1 else 0 := by
  rw [finalNotes, diagnostics_meetEnd debug, List.countP_append]
  split <;> rfl

/-- A notice changes no more than the number of notes. -/
theorem Rests.bringUp {told : Nat} {session : Session} (rests : session.Rests told)
    (notice : Notice) :
    (session.bringUp notice).Rests (told + if notice = .expectedFinalNewline then 1 else 0) := by
  have notes := fun debug => session.finalNotes_bringUp debug notice
  obtain ⟨diagnostics, log, same⟩ := session.exists_bringUp_eq notice
  constructor
  · rw [same]
    exact rests.token
  · intro debug
    rw [mode_bringUp] at debug
    rw [notes debug, rests.noted debug, same]
    exact Nat.add_right_comm ..

/-- The first time that the end is met, a note on the last line is kept, and none is kept again. -/
theorem Rests.ending {told : Nat} {session : Session} (rests : session.Rests told) :
    (Move.ending.foldl act session).Rests told := by
  have shown := session.currentToken_ending
  refine ⟨fun _ => ⟨congrArg Token.kind shown, congrArg Token.text shown⟩, fun debug => ?_⟩
  have debug : session.mode = .debug := by simpa [Move.ending] using debug
  have source : session.meetEnd.lacksFinalNewline = session.lacksFinalNewline := by
    rw [lacksFinalNewline, lacksFinalNewline, show session.meetEnd.source = _ from
      session.source_act .meetEnd]
  change session.meetEnd.finalNotes =
    told + if true && session.meetEnd.lacksFinalNewline then 1 else 0
  rw [finalNotes_meetEnd debug, rests.noted debug, source]
  cases session.endReached <;> simp

/-- A session that lives through conclusive moves rests as before. -/
theorem Rests.live {told : Nat} {session : Session} (rests : session.Rests told)
    {moves : List Move} (conclusive : Move.Conclusive session.endReached moves) :
    (session.live moves).2.Rests told := by
  generalize same : session.endReached = ended at conclusive
  induction conclusive generalizing session with
  | done => exact rests
  | take behind ih =>
    -- The end is not met yet, so that nothing is said of the last token.
    rw [live_take]
    refine ih ⟨fun met => ?_, rests.noted⟩ same
    exact absurd (met.symm.trans same) (by decide)
  | surface behind ih =>
    rw [live_cons _ rfl]
    refine ih ⟨fun met => ?_, rests.noted⟩ same
    exact absurd (met.symm.trans same) (by decide)
  | @report ended notice others other behind ih =>
    have noted := rests.bringUp notice
    rw [if_neg other, Nat.add_zero] at noted
    have met : (session.bringUp notice).endReached = ended := by
      obtain ⟨diagnostics, log, brought⟩ := session.exists_bringUp_eq notice
      rw [brought]
      exact same
    rw [Session.live]
    split
    · exact noted
    · exact ih noted met
  | ending behind ih =>
    rw [live_ending_append]
    exact ih rests.ending rfl
  | summarize behind ih =>
    rw [live_cons _ rfl]
    exact ih ⟨rests.token, rests.noted⟩ same

/-- A fresh session rests. -/
theorem rests_ofSource (file : String) (source : List Char) (mode : Mode) :
    (ofSource file source mode).Rests 0 :=
  ⟨nofun, fun _ => rfl⟩

/-- A call changes the number of notes on the last line by itself only where it brings one up. -/
theorem Rests.perform {told : Nat} {session : Session} (rests : session.Rests told)
    (settled : session.Settled) (call : Call) :
    (session.perform call).2.Rests
      (told + if call = .report .expectedFinalNewline then 1 else 0) := by
  have lived : (session.live (session.moves call)).2.Rests
      (told + if call = .report .expectedFinalNewline then 1 else 0) := by
    cases call with
    | scan => exact rests.live (Move.conclusive_scanning _ settled.met)
    | setSkipTrivia skipTrivia => exact rests
    | report notice =>
      have brought : (session.live [.report notice]).2 = session.bringUp notice := by
        rw [Session.live]
        split <;> rfl
      have noted := rests.bringUp notice
      rw [moves, brought]
      simpa using noted
    | readTree | parse => exact rests.live (Move.conclusive_parsing _ settled.met)
  obtain ⟨skipTrivia, tree, left⟩ := session.snd_perform call
  rw [left]
  exact ⟨lived.token, lived.noted⟩

/-- Whatever was asked of a session, the notes on the last line that its callers have not brought up
themselves are one at most. -/
theorem rests_after {told : Nat} {session : Session} (rests : session.Rests told)
    (placed : session.Placed) (settled : session.Settled) (calls : List Call) :
    (session.after calls).Rests (told + calls.count (.report .expectedFinalNewline)) := by
  induction calls generalizing session told with
  | nil => exact rests
  | cons call others ih =>
    have later := ih (rests.perform settled call) (placed.perform call)
      (settled_after placed settled [call])
    change ((session.perform call).2.after others).Rests _
    rw [List.count_cons, Nat.add_comm (others.count _), ← Nat.add_assoc]
    simpa using later

/-- A session stands behind its end, which is the last token that it has handed out. -/
structure Finished (session : Session) : Prop where
  /-- The end is met. -/
  endReached : session.endReached = true
  /-- Nothing is ahead. -/
  ahead : session.ahead = []
  /-- The last token is the end of the source. -/
  token : session.currentToken = ⟨.endOfFile, [], Text.byteLength session.source⟩

/-- A session behind its end stands there. -/
theorem Finished.cursor {session : Session} (finished : session.Finished) :
    session.cursor = Text.byteLength session.source := by
  have position : session.tokenPosition = _ := congrArg Token.position finished.token
  have lexeme : session.lexeme = [] := congrArg Token.text finished.token
  rw [Session.cursor, tokenLength, position, lexeme]
  rfl

/-- The end is handed out behind it as it was before. -/
theorem Finished.ending {session : Session} (finished : session.Finished) :
    let after := Move.ending.foldl act session
    after.Finished ∧ after.source = session.source ∧ after.diagnostics = session.diagnostics := by
  intro after
  have source : after.source = session.source := by simp [after, Move.ending]
  have ahead : after.ahead = session.ahead := session.ahead_act .meetEnd
  refine ⟨⟨rfl, ahead.trans finished.ahead, ?_⟩, source, diagnostics_ending finished.endReached⟩
  rw [currentToken_ending, finished.cursor, source]

end Session

/-- The tree of a source of a number of bytes without statements. -/
def SyntaxTree.bare (bytes : Nat) : SyntaxTree where
  nodes := #[{ data := .source [], position := 0, length := bytes, parent := none }]
  root := 0

/-- Where nothing is ahead, there are no statements. -/
theorem Program.grown_ofLexemes_nil (position : Nat) :
    (ofLexemes position []).grown = .bare position := rfl

namespace Session

/-- What comes of a call behind the end of a source of a number of bytes. -/
def Call.answerAtEnd (bytes : Nat) : Call → Answer
  | .scan => .token ⟨.endOfFile, [], bytes⟩
  | .readTree | .parse => .tree (.bare bytes)
  | .setSkipTrivia _ | .report _ => .done

/-- A call behind the end, but for a notice, comes through and leaves the session there. -/
theorem Finished.perform {session : Session} (finished : session.Finished) {call : Call}
    (silent : ∀ notice, call ≠ .report notice) :
    (session.perform call).1 = .ok (call.answerAtEnd (Text.byteLength session.source)) ∧
      (session.perform call).2.Finished ∧ (session.perform call).2.source = session.source ∧
      (session.perform call).2.diagnostics = session.diagnostics := by
  obtain ⟨behind, source, diagnostics⟩ := finished.ending
  have read : session.readTree =
      (.ok (.bare (Text.byteLength session.source)), Move.ending.foldl act session) := by
    rw [readTree_eq, finished.ahead, Move.parsing_nil, live_ending, program, finished.ahead,
      Program.grown_ofLexemes_nil, finished.cursor]
    rfl
  cases call with
  | scan =>
    have scanned := scan_nil finished.ahead
    rw [finished.cursor] at scanned
    rw [Session.perform, scanned]
    exact ⟨rfl, behind, source, diagnostics⟩
  | setSkipTrivia skipTrivia =>
    exact ⟨rfl, ⟨finished.endReached, finished.ahead, finished.token⟩, rfl, rfl⟩
  | report notice => exact absurd rfl (silent notice)
  | readTree =>
    rw [Session.perform, read]
    exact ⟨rfl, behind, source, diagnostics⟩
  | parse =>
    rw [Session.perform, parse, read]
    exact ⟨rfl, ⟨behind.endReached, behind.ahead, behind.token⟩, source, diagnostics⟩

/-- All calls behind the end, but for notices, come through and leave the session there. -/
theorem Finished.after {session : Session} (finished : session.Finished) {calls : List Call}
    (silent : ∀ call ∈ calls, ∀ notice, call ≠ .report notice) :
    session.transcript calls =
        calls.map (fun call => (call, .ok (call.answerAtEnd (Text.byteLength session.source)))) ∧
      (session.after calls).Finished ∧ (session.after calls).source = session.source ∧
      (session.after calls).diagnostics = session.diagnostics := by
  induction calls generalizing session with
  | nil => exact ⟨rfl, finished, rfl, rfl⟩
  | cons call others ih =>
    obtain ⟨answer, behind, source, diagnostics⟩ :=
      finished.perform (silent call (List.mem_cons_self ..))
    obtain ⟨answers, last, same, kept⟩ :=
      ih behind fun other member => silent other (List.mem_cons_of_mem call member)
    rw [source] at answers same
    rw [diagnostics] at kept
    refine ⟨?_, last, same, kept⟩
    rw [transcript, answer, answers, List.map_cons]

/-- Once the end was handed out, nothing else happens: whatever is asked of the session but to bring
up notices comes through, hands out the end or a tree without statements, and leaves its place, the
last token and the diagnostics as they are. All along, where notices are kept, there is one note on
the last line, besides those that callers bring up, if the end was handed out and the line has no
end, and there is none otherwise. -/
theorem finished_after (file : String) (source : List Char) (mode : Mode) (calls : List Call) :
    let session := (ofSource file source mode).after calls
    let stop := Text.byteLength source
    (session.hasEnded = true →
      session.currentToken = ⟨.endOfFile, [], stop⟩ ∧ session.cursor = stop ∧
      ∀ later : List Call, (∀ call ∈ later, ∀ notice, call ≠ .report notice) →
        session.transcript later = later.map (fun call => (call, .ok (call.answerAtEnd stop))) ∧
        (session.after later).currentToken = session.currentToken ∧
        (session.after later).cursor = session.cursor ∧
        (session.after later).diagnostics = session.diagnostics) ∧
    (mode = .debug →
      session.diagnostics.toList.countP (·.notice = .expectedFinalNewline) =
        calls.count (.report .expectedFinalNewline) +
          if session.hasEnded = true ∧ isUnended source = true then 1 else 0) := by
  intro session stop
  have fresh := placed_ofSource file source mode
  have start := settled_ofSource file source mode
  obtain ⟨placed, _, sameSource, sameMode⟩ := placed_after fresh calls
  have settled := settled_after fresh start calls
  have rests := rests_after (rests_ofSource file source mode) fresh start calls
  change session.Placed at placed
  change session.source = source at sameSource
  change session.mode = mode at sameMode
  change session.Settled at settled
  change session.Rests _ at rests
  constructor
  · intro ended
    have met : session.endReached = true := settled.ended.trans ended
    have ahead := settled.met met
    obtain ⟨token, lexeme⟩ := rests.token met
    have whole := placed.stop
    rw [ahead, sameSource, cursor, tokenLength, lexeme] at whole
    have finished : session.Finished := by
      refine ⟨met, ahead, ?_⟩
      rw [currentToken, token, lexeme, sameSource, ← whole]
      rfl
    have last := finished.token
    have here := finished.cursor
    rw [sameSource] at last here
    refine ⟨last, here, fun later silent => ?_⟩
    obtain ⟨answers, behind, same, kept⟩ := finished.after silent
    rw [sameSource] at answers same
    rw [behind.token, behind.cursor, same, last, here]
    exact ⟨answers, rfl, rfl, kept⟩
  · intro debug
    have unended : session.lacksFinalNewline = isUnended source := by
      rw [lacksFinalNewline, sameSource]
      rfl
    have noted := rests.noted (sameMode.trans debug)
    rw [settled.ended, unended, Nat.zero_add] at noted
    change session.finalNotes = _
    simpa using noted

/-- A parse that is abandoned at the end, behind a comma, has handed the end out. -/
theorem finished_after_abandoned :
    let fresh := ofSource "a" "b c,".toList .failFast
    let session := fresh.after [.parse]
    (fresh.perform .parse).1 = .error (.aborted (.expectedExpression .endOfFile)
        "error: expected expression, found end of file") ∧
      session.hasEnded = true ∧
      session.transcript [.scan, .parse] =
        [(.scan, .ok (.token ⟨.endOfFile, [], 4⟩)), (.parse, .ok (.tree (.bare 4)))] := by
  intro fresh session
  let lexemes : List Lexeme :=
    [.token .identifier ['b'], .token .space [' '], .token .identifier ['c'],
      .token .delimiter [',']]
  have munched : Lexeme.Munched lexemes := by decide
  have cut : Lexeme.ofText "b c,".toList = lexemes := Lexeme.ofText_flatMap munched
  have same : fresh = { fresh with ahead := lexemes } := by rw [← cut]; rfl
  have aborted : (fresh.perform .parse).1 = .error (.aborted (.expectedExpression .endOfFile)
      "error: expected expression, found end of file") := by
    rw [same]
    rfl
  have met : session.endReached = true := by
    change (fresh.perform .parse).2.endReached = true
    rw [same]
    rfl
  have ended : session.hasEnded = true :=
    (settled_after (placed_ofSource ..) (settled_ofSource ..) [.parse]).ended.symm.trans met
  obtain ⟨_, _, later⟩ := (finished_after "a" "b c,".toList .failFast [.parse]).1 ended
  exact ⟨aborted, ended, (later [.scan, .parse] (by simp)).1⟩

end Session

end Assembly8085
