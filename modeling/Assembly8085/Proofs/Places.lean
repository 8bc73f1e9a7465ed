import Assembly8085.Proofs.Journal
import Assembly8085.Proofs.Lines

/-!
# The places that diagnostics show

A session diagnoses something about its last lexeme or about the end of its source, so each
diagnostic that it keeps is about a stretch of the source, whatever was asked of it. The line map is
that of the source all along. So the place that is shown with a diagnostic counts the line feeds in
front of it, and the bytes behind the last of them.
-/
namespace Assembly8085

/-- A diagnostic is about a stretch of a source. -/
def Diagnostic.IsWithin (diagnostic : Diagnostic) (file : String) (source : List Char) : Prop :=
  ∃ location, diagnostic.location = some location ∧ location.file = file ∧
    location.position + location.length ≤ Text.byteLength source

namespace Session

/-- Each diagnostic that a session keeps is about a stretch of its source. -/
def Located (session : Session) : Prop :=
  ∀ diagnostic ∈ session.diagnostics, diagnostic.IsWithin session.file session.source

/-- What a session diagnoses where it is placed is about a stretch of its source. -/
theorem Placed.isWithin {session : Session} (placed : session.Placed) {move : Move}
    {diagnostic : Diagnostic} (member : diagnostic ∈ session.diagnoses move) :
    diagnostic.IsWithin session.file session.source := by
  cases move with
  | report notice =>
    obtain rfl := List.mem_singleton.mp member
    exact ⟨_, rfl, rfl, placed.sound.within⟩
  | meetEnd =>
    rw [diagnoses] at member
    split at member
    · obtain rfl := List.mem_singleton.mp member
      exact ⟨_, rfl, rfl, placed.sound.within⟩
    · contradiction
  | take _ | surface _ | summarize _ => contradiction

/-- A move of a session that is placed adds no diagnostic about anything else. -/
theorem Located.act {session : Session} (located : session.Located) (placed : session.Placed)
    (move : Move) : (session.act move).Located := by
  intro diagnostic member
  rw [file_act, source_act]
  cases mode : session.mode with
  | debug =>
    rw [← Array.mem_toList_iff, diagnostics_act mode, List.mem_append] at member
    rcases member with earlier | new
    · exact located _ (Array.mem_toList_iff.mp earlier)
    · exact placed.isWithin new
  | failFast =>
    rw [diagnostics_act_of_failFast mode] at member
    exact located _ member

/-- Moves that keep a session placed add no diagnostic about anything else. -/
theorem Located.live {session : Session} (located : session.Located) {moves : List Move}
    (placed : ∀ stage ∈ session :: session.stages moves, stage.Placed) :
    (session.live moves).2.Located := by
  induction moves generalizing session with
  | nil => exact located
  | cons move others ih =>
    have here := located.act (placed session (.head _)) move
    rw [Session.live]
    split
    · exact here
    · rename_i outlives
      refine ih here fun stage member => placed stage (.tail _ ?_)
      rw [Session.stages, outlives]
      exact member

/-- A call adds no diagnostic about anything else. -/
theorem Located.perform {session : Session} (located : session.Located) (placed : session.Placed)
    (call : Call) : (session.perform call).2.Located := by
  obtain ⟨skipTrivia, tree, left⟩ := session.snd_perform call
  have lived := located.live
    (List.forall_mem_cons.mpr ⟨placed, placed.stages (session.taken?_moves call)⟩)
  rw [left]
  exact lived

/-- Whatever is asked of a session, each diagnostic that it keeps is about a stretch of its
source. -/
theorem located_after {session : Session} (located : session.Located) (placed : session.Placed)
    (calls : List Call) : (session.after calls).Located := by
  induction calls generalizing session with
  | nil => exact located
  | cons call others ih => exact ih (located.perform placed call) (placed.perform call)

/-- A diagnostic that has its place in a source is shown with line and column. -/
theorem format_eq {session : Session} {source : List Char} {diagnostic : Diagnostic}
    {location : Location} (map : session.lineMap = some (.ofText source))
    (located : diagnostic.location = some location) :
    session.format diagnostic =
      location.file ++ ":" ++ toString (((LineMap.ofText source).place location.position).1 + 1) ++
        ":" ++ toString (((LineMap.ofText source).place location.position).2 + 1) ++ ": " ++
        diagnostic.text := by
  rw [format, map, located]

/-- Lines and columns are exact and give the offset back, for each offset of each source. So each
diagnostic that a session keeps, whatever is asked of it, is shown with a line that is one more than
the number of the line feeds in front of its place, and with a column that is one more than the
number of the bytes behind the last of them. -/
theorem exact_places (source : List Char) :
    (LineMap.ofText source).Exact (Text.bytes source) ∧
    ∀ file calls,
      let session := (ofSource file source .debug).after calls
      ∀ diagnostic ∈ session.diagnostics, ∃ location lines part,
        diagnostic.location = some location ∧
          location.position + location.length ≤ (Text.bytes source).length ∧
          (Text.bytes source).take location.position = lines ++ part ∧
          (lines = [] ∨ lines.getLast? = some Text.lineFeed) ∧ Text.lineFeed ∉ part ∧
          session.format diagnostic =
            file ++ ":" ++ toString (lines.count Text.lineFeed + 1) ++ ":" ++
              toString (part.length + 1) ++ ": " ++ diagnostic.text := by
  refine ⟨LineMap.exact_ofText source, ?_⟩
  intro file calls session diagnostic member
  have fresh : (ofSource file source .debug).Located := nofun
  have placed := placed_ofSource file source .debug
  have kept := (ofSource file source .debug).keeps_after calls
  obtain ⟨_, sameFile, sameSource, _⟩ := placed_after placed calls
  obtain ⟨location, located, named, within⟩ := located_after fresh placed calls diagnostic member
  rw [sameFile] at named
  rw [sameSource] at within
  obtain ⟨lines, part, front, ended, unended, place⟩ :=
    LineMap.exists_lines source (Nat.le_trans (Nat.le_add_right ..) within)
  refine ⟨location, lines, part, located, by rwa [Text.length_bytes], front, ended, unended, ?_⟩
  rw [format_eq kept.lineMap located, place, named]
  rfl

/-- Behind a letter of two bytes and the line feed of its line, a stray character in the second
column of the next line. -/
theorem exact_places_behind_letter :
    let source := ['é', '\n', ' ', '$']
    let session := (ofSource "a.asm" source .debug).after [.parse]
    ∃ diagnostic ∈ session.diagnostics,
      session.format diagnostic = "a.asm:2:2: error: unexpected character '$'" ∧
        ∃ location lines part,
          diagnostic.location = some location ∧
            location.position + location.length ≤ (Text.bytes source).length ∧
            (Text.bytes source).take location.position = lines ++ part ∧
            (lines = [] ∨ lines.getLast? = some Text.lineFeed) ∧ Text.lineFeed ∉ part ∧
            session.format diagnostic =
              "a.asm" ++ ":" ++ toString (lines.count Text.lineFeed + 1) ++ ":" ++
                toString (part.length + 1) ++ ": " ++ diagnostic.text := by
  intro source session
  have member : ⟨.unexpectedCharacter '$', some ⟨"a.asm", 4, 1⟩⟩ ∈ session.diagnostics := by
    decide +kernel
  exact ⟨_, member, by decide +kernel, (exact_places source).2 "a.asm" [.parse] _ member⟩

end Session

end Assembly8085
