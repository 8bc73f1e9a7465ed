import Assembly8085.Proofs.Session

/-!
# The two modes agree

A session that stops at errors goes through the same moves as one that keeps notices, up to the
first error. So it comes through exactly where the other one keeps no error, with the same tree,
and otherwise it stops at the first error that the other one keeps.
-/
namespace Assembly8085

variable (file : String) (source : List Char)

/-- The tree of a parse that keeps notices is that of the program that the source is. -/
theorem fst_parseSource_debug :
    (parseSource file source .debug).1 =
      .ok (Program.ofLexemes 0 (Lexeme.ofText source)).grown := by
  rw [parseSource, Session.parse_of_debug rfl]
  rfl

/-- A session that keeps notices has kept the errors among the moves of its parse. -/
theorem errors_parseSource_debug :
    (parseSource file source .debug).2.errors.map (·.notice) =
      (Move.parsing 0 (Lexeme.ofText source)).filterMap Move.error? := by
  have debug : (Session.ofSource file source .debug).mode = .debug := rfl
  have kept := Session.errors_foldl_act debug (Move.parsing 0 (Lexeme.ofText source))
  rw [parseSource, Session.parse_of_debug debug]
  exact kept

/-- A parse that stops at errors lives through its moves exactly if the other one keeps no error,
and otherwise stops at the first one. -/
theorem live_parsing_of_failFast :
    ((Session.ofSource file source .failFast).live (Move.parsing 0 (Lexeme.ofText source))).1 =
      match (parseSource file source .debug).2.errors.head? with
      | some first => .error (.aborted first.notice first.text)
      | none => .ok () := by
  rw [Session.fst_live_of_failFast _ _ rfl rfl, ← List.head?_filterMap,
    ← errors_parseSource_debug file source, List.head?_map]
  cases (parseSource file source .debug).2.errors.head? <;> rfl

/-- A parse that stops at errors comes through with the tree of the program if the other one
keeps no error. -/
theorem parseSource_failFast_of_errors_eq_nil
    (none : (parseSource file source .debug).2.errors = []) :
    ∃ after : Session, after.diagnostics = #[] ∧
      parseSource file source .failFast =
        (.ok (Program.ofLexemes 0 (Lexeme.ofText source)).grown,
          { after with tree := some (Program.ofLexemes 0 (Lexeme.ofText source)).grown }) := by
  have lived := live_parsing_of_failFast file source
  rw [none] at lived
  obtain ⟨_, kept⟩ := Session.live_frame (Session.ofSource file source .failFast)
    (Move.parsing 0 (Lexeme.ofText source))
  exact ⟨_, kept rfl, Session.parse_eq_ok lived⟩

/-- A parse that stops at errors comes through exactly if the other one keeps no error. -/
theorem exists_parseSource_failFast_iff :
    (∃ tree, (parseSource file source .failFast).1 = .ok tree) ↔
      (parseSource file source .debug).2.errors = [] := by
  constructor
  · rintro ⟨tree, through⟩
    cases found : (parseSource file source .debug).2.errors with
    | nil => rfl
    | cons first others =>
      have lived := live_parsing_of_failFast file source
      rw [found] at lived
      rw [parseSource, Session.parse_eq_error lived] at through
      contradiction
  · intro none
    obtain ⟨after, _, through⟩ := parseSource_failFast_of_errors_eq_nil file source none
    exact ⟨_, by rw [through]⟩

/-- A parse finds no other tree than that of the program that the source is. -/
theorem eq_grown_of_parseSource {mode : Mode} {tree : SyntaxTree}
    (found : (parseSource file source mode).1 = .ok tree) :
    tree = (Program.ofLexemes 0 (Lexeme.ofText source)).grown := by
  cases mode with
  | debug => exact Except.ok.inj (found.symm.trans (fst_parseSource_debug file source))
  | failFast =>
    have none := (exists_parseSource_failFast_iff file source).mp ⟨tree, found⟩
    obtain ⟨after, _, through⟩ := parseSource_failFast_of_errors_eq_nil file source none
    rw [through] at found
    exact (Except.ok.inj found).symm

/-- A parse that stops at errors comes through, with the same tree, if the other one keeps no
error, and otherwise it stops at the first one, keeps nothing, and tells it without its
place. -/
theorem parseSource_failFast_eq :
    (match (parseSource file source .debug).2.diagnostics.toList.find? (·.isError) with
      | none => ∃ tree, (parseSource file source .debug).1 = .ok tree ∧
          (parseSource file source .failFast).1 = .ok tree ∧
          (parseSource file source .failFast).2.tree = some tree ∧
          (parseSource file source .failFast).2.diagnostics = #[]
      | some first =>
        (parseSource file source .failFast).1 = .error (.aborted first.notice first.text) ∧
          (parseSource file source .failFast).1.mapError Failure.message = .error first.text ∧
          (parseSource file source .failFast).2.tree = none) ∧
    ((∃ tree, (parseSource file source .failFast).1 = .ok tree) ↔
      (parseSource file source .debug).2.hasErrors = false) := by
  rw [← Session.head?_errors, Session.hasErrors_eq, exists_parseSource_failFast_iff]
  cases found : (parseSource file source .debug).2.errors with
  | nil =>
    obtain ⟨after, kept, through⟩ := parseSource_failFast_of_errors_eq_nil file source found
    rw [through]
    exact ⟨⟨_, fst_parseSource_debug file source, rfl, rfl, kept⟩, by simp⟩
  | cons first others =>
    have lived := live_parsing_of_failFast file source
    rw [found] at lived
    obtain ⟨tree, _⟩ := Session.live_frame (Session.ofSource file source .failFast)
      (Move.parsing 0 (Lexeme.ofText source))
    have stopped : parseSource file source .failFast = _ := Session.parse_eq_error lived
    rw [stopped]
    exact ⟨⟨rfl, rfl, tree⟩, by simp⟩

end Assembly8085
