import Assembly8085.Proofs.Scan
import Assembly8085.Proofs.Slice

/-!
# Where a session stands

A session stands between two parts of its source: behind it is what it has taken, with the last
lexeme at the end, and ahead of it is a text of which it has the lexemes. Moves that take the
lexemes ahead in order keep it so, however far a session lives through them. So all its offsets lie
on characters of the source, and what stands between them can be cut out.
-/
namespace Assembly8085

namespace Move

/-- The lexeme that a move takes, if it takes one. -/
def taken? : Move → Option Lexeme
  | .take lexeme => some lexeme
  | _ => none

/-- Nothing is taken where notices are brought up. -/
theorem taken?_reports (notice : Option Notice) : (reports notice).filterMap taken? = [] := by
  cases notice <;> rfl

/-- Nothing is taken at the end. -/
theorem taken?_ending : ending.filterMap taken? = [] := rfl

/-- A lexeme alone is taken with what it gives rise to say. -/
theorem taken?_taking (lexeme : Lexeme) : (taking lexeme).filterMap taken? = [lexeme] := by
  simp [taking, taken?, taken?_reports]

/-- A scan takes lexemes from the first on. -/
theorem taken?_scanning (skipTrivia : Bool) (ahead : List Lexeme) :
    (scanning skipTrivia ahead).filterMap taken? <+: ahead := by
  induction ahead with
  | nil => exact List.prefix_rfl
  | cons lexeme others ih =>
    have later : lexeme :: (scanning skipTrivia others).filterMap taken? <+: lexeme :: others :=
      List.cons_prefix_cons.mpr ⟨rfl, ih⟩
    rw [scanning, List.filterMap_append, taken?_taking]
    cases lexeme.kind? with
    | none => exact later
    | some kind =>
      dsimp only
      split
      · exact later
      · exact List.cons_prefix_cons.mpr ⟨rfl, List.nil_prefix⟩

/-- A reading takes all lexemes in order. -/
theorem taken?_readingFrom (reading : Reading) (position : Nat) (ahead : List Lexeme) :
    (readingFrom reading position ahead).filterMap taken? = ahead := by
  induction ahead generalizing reading position with
  | nil =>
    have again : (if reading.finish.discards then ending else []).filterMap taken? = [] := by
      split <;> rfl
    simp only [readingFrom, List.filterMap_append, taken?_ending, taken?_reports, again,
      List.append_nil]
  | cons lexeme others ih =>
    rw [readingFrom, List.filterMap_append, taken?_taking]
    cases lexeme.kind? with
    | none => exact congrArg _ (ih _ _)
    | some kind =>
      have later (notice : Option Notice) (behind : List Move) :
          (.surface kind :: reports notice ++ behind).filterMap taken? =
            behind.filterMap taken? := by
        rw [List.filterMap_append]
        exact congrArg (· ++ _) (taken?_reports notice)
      exact congrArg _ ((later _ _).trans (ih _ _))

/-- A parse takes all lexemes in order. -/
theorem taken?_parsing (position : Nat) (ahead : List Lexeme) :
    (parsing position ahead).filterMap taken? = ahead := by
  rw [parsing, List.filterMap_append, taken?_readingFrom]
  split <;> exact List.append_nil _

end Move

namespace Session

/-- The sessions that a session becomes by moves, up to the one that stops. -/
def stages (session : Session) : List Move → List Session
  | [] => []
  | move :: others =>
    session.act move ::
      if (session.stop? move).isSome then [] else (session.act move).stages others

/-- What is left of a session is the last one that it becomes. -/
theorem snd_live_eq (session : Session) (moves : List Move) :
    (session.live moves).2 = (session.stages moves).getLastD session := by
  induction moves generalizing session with
  | nil => rfl
  | cons move others ih =>
    rw [live, stages]
    cases session.stop? move with
    | none => exact (ih (session.act move)).trans List.getLastD_cons.symm
    | some notice => rfl

/-- A session splits its source into what is behind its last lexeme, that lexeme, and a text whose
lexemes are ahead. -/
def Placed (session : Session) : Prop :=
  ∃ before rest, session.source = before ++ session.lexeme ++ rest ∧
    Text.byteLength before = session.tokenPosition ∧ session.ahead = Lexeme.ofText rest

/-- A fresh session has its whole source ahead. -/
theorem placed_ofSource (file : String) (source : List Char) (mode : Mode) :
    (ofSource file source mode).Placed :=
  ⟨[], source, rfl, rfl, rfl⟩

/-- The lexemes ahead of a session that is placed are lawful. -/
theorem Placed.lawful {session : Session} (placed : session.Placed) :
    ∀ lexeme ∈ session.ahead, lexeme.isLawful = true := by
  obtain ⟨_, rest, _, _, ahead⟩ := placed
  rw [ahead]
  exact fun _ => Lexeme.isLawful_of_mem (Lexeme.munched_ofText rest)

/-- The lexemes ahead reach to the end of the source. -/
theorem Placed.stop {session : Session} (placed : session.Placed) :
    session.cursor + Lexeme.totalLength session.ahead = Text.byteLength session.source := by
  obtain ⟨before, rest, whole, place, ahead⟩ := placed
  rw [whole, ahead, Lexeme.totalLength_ofText, Text.byteLength_append, Text.byteLength_append,
    place]
  rfl

/-- Without a lexeme being taken, those ahead stay there. -/
theorem ahead_act (session : Session) (move : Move) :
    (session.act move).ahead =
      match move.taken? with
      | some _ => session.ahead.tail
      | none => session.ahead := by
  cases move with
  | report notice => exact (bringUp_frame session notice).2.1
  | meetEnd =>
    obtain ⟨diagnostics, log, met⟩ := session.exists_meetEnd_eq
    rw [act, met]
    rfl
  | _ => rfl

/-- The text behind a lexeme that is ahead is what is ahead behind it. -/
theorem exists_of_ofText_eq_cons {rest : List Char} {lexeme : Lexeme} {others : List Lexeme}
    (ahead : Lexeme.ofText rest = lexeme :: others) :
    ∃ behind, rest = lexeme.text ++ behind ∧ others = Lexeme.ofText behind := by
  cases rest with
  | nil => simp [Lexeme.ofText] at ahead
  | cons c more =>
    rw [Lexeme.ofText] at ahead
    obtain ⟨rfl, rfl⟩ := List.cons.inj ahead
    exact ⟨_, (Lexeme.first_append c more).symm, rfl⟩

/-- A move keeps a session placed, provided that what it takes is the next lexeme ahead. -/
theorem Placed.act {session : Session} (placed : session.Placed) {move : Move}
    (due : ∀ lexeme, move.taken? = some lexeme → session.ahead.head? = some lexeme) :
    (session.act move).Placed := by
  obtain ⟨before, rest, whole, place, ahead⟩ := placed
  have behind : Text.byteLength (before ++ session.lexeme) = session.cursor := by
    rw [Text.byteLength_append, place]
    rfl
  -- A notice changes nothing that matters here.
  have noticed (session : Session) (placed : session.Placed) (notice : Notice) :
      (session.bringUp notice).Placed := by
    obtain ⟨_, lexemes, position, last⟩ := bringUp_frame session notice
    have source : (session.bringUp notice).source = session.source :=
      source_act session (.report notice)
    rw [Placed, source, lexemes, position, last]
    exact placed
  cases move with
  | take lexeme =>
    obtain ⟨others, next⟩ := List.head?_eq_some_iff.mp (due lexeme rfl)
    obtain ⟨later, rfl, others_eq⟩ := exists_of_ofText_eq_cons (ahead.symm.trans next)
    refine ⟨before ++ session.lexeme, later, ?_, behind, ?_⟩
    · change session.source = before ++ session.lexeme ++ lexeme.text ++ later
      rw [whole, List.append_assoc _ lexeme.text]
    · change session.ahead.tail = _
      rw [next, List.tail_cons, others_eq]
  | report notice => exact noticed session ⟨before, rest, whole, place, ahead⟩ notice
  | surface kind => exact ⟨before, rest, whole, place, ahead⟩
  | meetEnd =>
    have atEnd : session.atEnd.Placed :=
      ⟨before ++ session.lexeme, rest, by simpa [Session.atEnd] using whole, behind, ahead⟩
    simp only [Session.act, meetEnd_eq]
    split
    · exact noticed session.atEnd atEnd .expectedFinalNewline
    · exact atEnd
  | summarize errors => exact ⟨before, rest, whole, place, ahead⟩

/-- Moves that take the lexemes ahead in order keep a session placed all along. -/
theorem Placed.stages {session : Session} (placed : session.Placed) {moves : List Move}
    (order : moves.filterMap Move.taken? <+: session.ahead) :
    ∀ stage ∈ session.stages moves, stage.Placed := by
  induction moves generalizing session with
  | nil => simp [Session.stages]
  | cons move others ih =>
    -- What the others take is ahead of the session behind the first move.
    have next : (∀ lexeme, move.taken? = some lexeme → session.ahead.head? = some lexeme) ∧
        others.filterMap Move.taken? <+: (session.act move).ahead := by
      rw [ahead_act]
      cases taken : move.taken? with
      | none => exact ⟨nofun, by simpa [taken] using order⟩
      | some lexeme =>
        obtain ⟨behind, ahead⟩ := order
        rw [List.filterMap_cons_some taken, List.cons_append] at ahead
        rw [← ahead]
        exact ⟨fun _ same => same, List.prefix_append _ _⟩
    have here := placed.act next.1
    intro stage member
    rcases List.mem_cons.mp member with rfl | later
    · exact here
    · split at later
      · contradiction
      · exact ih here next.2 stage later

/-- No move takes a session back. -/
theorem cursor_le_act (session : Session) (move : Move) :
    session.cursor ≤ (session.act move).cursor := by
  cases move with
  | take lexeme => exact Nat.le_add_right ..
  | report notice =>
    obtain ⟨_, _, position, last⟩ := bringUp_frame session notice
    apply Nat.le_of_eq
    rw [cursor, cursor, tokenLength, tokenLength, Session.act, position, last]
  | meetEnd =>
    obtain ⟨position, _⟩ := meetEnd_place session
    rw [Session.act, cursor.eq_1 session.meetEnd, position]
    exact Nat.le_add_right ..
  | _ => exact Nat.le_refl _

/-- No sequence of moves takes a session back. -/
theorem cursor_le_of_mem_stages {session stage : Session} {moves : List Move}
    (member : stage ∈ session.stages moves) : session.cursor ≤ stage.cursor := by
  induction moves generalizing session with
  | nil => contradiction
  | cons move others ih =>
    have here := cursor_le_act session move
    rcases List.mem_cons.mp member with rfl | later
    · exact here
    · split at later
      · contradiction
      · exact Nat.le_trans here (ih later)

/-- Each session that a session becomes has come at least as far as those in front of it. -/
theorem pairwise_cursor_stages (session : Session) (moves : List Move) :
    (session :: session.stages moves).Pairwise (·.cursor ≤ ·.cursor) := by
  induction moves generalizing session with
  | nil => exact List.pairwise_singleton ..
  | cons move others ih =>
    refine .cons (fun _ member => cursor_le_of_mem_stages member) ?_
    rw [Session.stages]
    split
    · exact List.pairwise_singleton ..
    · exact ih (session.act move)

/-- The offsets of a session are in order, lie on characters of its source or at its end, and what
stands between them can be cut out. -/
structure Sound (session : Session) : Prop where
  /-- The last lexeme does not start behind its end. -/
  ordered : session.tokenPosition ≤ session.cursor
  /-- It does not end behind the source. -/
  within : session.cursor ≤ Text.byteLength session.source
  /-- It starts at a character. -/
  start : String.Pos.Raw.IsValid (String.ofList session.source) ⟨session.tokenPosition⟩
  /-- It ends in front of one. -/
  stop : String.Pos.Raw.IsValid (String.ofList session.source) ⟨session.cursor⟩
  /-- The last lexeme is what stands between its two offsets. -/
  lexeme : Text.slice? session.source session.tokenPosition session.cursor = some session.lexeme
  /-- From each character of the last lexeme, and from its end, what follows can be looked at. -/
  ahead : ∀ front back, session.lexeme = front ++ back →
    Text.slice? session.source (session.tokenPosition + Text.byteLength front)
        (Text.byteLength session.source) =
      some (back ++ session.ahead.flatMap Lexeme.text)

/-- The offsets of a session that is placed are sound. -/
theorem Placed.sound {session : Session} (placed : session.Placed) : session.Sound := by
  obtain ⟨before, rest, whole, place, ahead⟩ := placed
  have behind : Text.byteLength (before ++ session.lexeme) = session.cursor := by
    rw [Text.byteLength_append, place]
    rfl
  refine
    { ordered := Nat.le_add_right ..
      within := ?_
      start := ?_
      stop := ?_
      lexeme := Text.slice?_eq_some_iff.mpr ⟨before, rest, whole, place, rfl⟩
      ahead := ?_ }
  · rw [whole, Text.byteLength_append, behind]
    exact Nat.le_add_right ..
  · rw [whole, ← place, List.append_assoc]
    exact Text.isValid_byteLength ..
  · rw [whole, ← behind]
    exact Text.isValid_byteLength ..
  · intro front back same
    rw [ahead, Lexeme.flatMap_text_ofText]
    refine Text.slice?_eq_some_iff.mpr ⟨before ++ front, [], ?_, ?_, ?_⟩
    · simp [whole, same]
    · rw [Text.byteLength_append, place]
    · simp only [whole, same, Text.byteLength_append, place]
      omega

end Session

end Assembly8085
