import Assembly8085.Proofs.Resumption

/-!
# Passing over layout

Scans may be told to pass over layout, and not to, at any time. A session that keeps notices then
hands out some of the tokens that it would hand out otherwise, each where it stands: the next one
that is no layout, or the next one at all, whatever it was told last. Only layout is left out, and
at the end of the source the diagnostics are those of a session that has handed out everything.
-/
namespace Assembly8085.Session

/-- A call scans or changes what scans pass over. -/
def Call.Scans : Call → Prop
  | .scan | .setSkipTrivia _ => True
  | _ => False

/-- What a call tells scans to do with layout, if it tells them anything. -/
def Call.skips? : Call → Option Bool
  | .setSkipTrivia skipTrivia => some skipTrivia
  | _ => none

/-- Whether scans of a source pass over layout behind some calls, by the calls alone: as the last of
them says that says anything about it. Scans that were told nothing hand out layout. -/
def skipsAfter (calls : List Call) : Bool := ((calls.filterMap Call.skips?).getLast?).getD false

/-- The scans among calls of a session, each with what comes of it. -/
def scansOf (session : Session) : (calls : List Call) → List (Except Failure Token × Session)
  | [] => []
  | call :: others =>
    let behind := (session.perform call).2.scansOf others
    match call with
    | .scan => session.scan :: behind
    | _ => behind

/-- Only a call that is about layout changes how scans treat it. -/
theorem skipTrivia_perform (session : Session) (call : Call) :
    (session.perform call).2.skipTrivia = call.skips?.getD session.skipTrivia := by
  have lived := (session.live_settings (session.moves call)).2.1
  cases call with
  | scan => exact lived
  | setSkipTrivia skipTrivia => rfl
  | report notice => exact lived
  | readTree =>
    have read := congrArg (fun outcome => outcome.2.skipTrivia) session.readTree_eq
    exact read.trans lived
  | parse =>
    change session.parse.2.skipTrivia = session.skipTrivia
    cases through : (session.live (Move.parsing session.cursor session.ahead)).1 with
    | ok done =>
      rw [parse_eq_ok through]
      exact lived
    | error failure =>
      rw [parse_eq_error through]
      exact lived

/-- Scans treat layout as the last call says that is about it. -/
theorem skipTrivia_after (session : Session) (calls : List Call) :
    (session.after calls).skipTrivia =
      ((calls.filterMap Call.skips?).getLast?).getD session.skipTrivia := by
  induction calls generalizing session with
  | nil => rfl
  | cons call others ih =>
    change ((session.perform call).2.after others).skipTrivia = _
    rw [ih, skipTrivia_perform]
    cases told : call.skips? with
    | none => rw [List.filterMap_cons_none told, Option.getD_none]
    | some skipTrivia =>
      rw [List.filterMap_cons_some told, List.getLast?_cons, Option.getD_some, Option.getD_some]

/-- Whether a token that was handed out is no layout. -/
def Scanned.counts (scanned : Scanned) : Bool := !scanned.token.kind.isTrivia

/-- What has been heard of a source when some of its lexemes are taken, whatever scans have passed
over on the way. -/
structure Heard (file : String) (source : List Char) (earlier : List Lexeme)
    (heard : List Scanned) (session : Session) : Prop where
  /-- Notices are kept. -/
  mode : session.mode = .debug
  /-- The session knows where it stands. -/
  placed : session.Placed
  /-- The lexemes that are not taken are ahead. -/
  lexemes : Lexeme.ofText source = earlier ++ session.ahead
  /-- The session stands behind those that are taken. -/
  cursor : session.cursor = Lexeme.totalLength earlier
  /-- Nothing is ahead where the end is met. -/
  met : session.endReached = true → session.ahead = []
  /-- The tokens among the lexemes were heard, but for some layout, and then the end of the source,
  as often as it was met. -/
  handed : ∃ kept ends,
    heard = kept ++ List.replicate ends ⟨⟨.endOfFile, [], Text.byteLength source⟩, none⟩ ∧
    kept.Sublist ((Lexeme.tokensFrom 0 earlier).map Token.scanned) ∧
    kept.filter Scanned.counts =
      ((Lexeme.tokensFrom 0 earlier).map Token.scanned).filter Scanned.counts ∧
    (ends ≠ 0 ↔ session.endReached = true)
  /-- The remarks on the lexemes were kept, and the one on the last line if the end was met. -/
  diagnostics : session.diagnostics.toList =
    (Lexeme.remarksFrom 0 earlier ++
      remarksAt (Text.byteLength source) 0
        (if session.endReached && isUnended source then some .expectedFinalNewline
          else none)).map (·.inFile file)
  /-- The name of the source is the same. -/
  file : session.file = file
  /-- The source is the same. -/
  source : session.source = source

/-- Nothing has been heard of a source yet. -/
theorem heard_ofSource (file : String) (source : List Char) :
    Heard file source [] [] (ofSource file source .debug) where
  mode := rfl
  file := rfl
  source := rfl
  placed := placed_ofSource file source .debug
  lexemes := rfl
  cursor := rfl
  met := nofun
  handed := ⟨[], 0, rfl, .slnil, rfl, by simp [ofSource]⟩
  diagnostics := rfl

variable {file : String} {source : List Char} {earlier : List Lexeme} {heard : List Scanned}
  {session : Session}

/-- A session that keeps notices shows all tokens but for layout that is to be passed over. -/
theorem shows_of_debug (debug : session.mode = .debug) (token : Token) :
    session.shows token = session.handsOut token.kind := by
  simp [shows, debug]

/-- Whatever is to be passed over, the tokens that count are shown. -/
theorem filter_counts_shows (debug : session.mode = .debug) (tokens : List Token) :
    ((tokens.filter session.shows).map Token.scanned).filter Scanned.counts =
      (tokens.map Token.scanned).filter Scanned.counts := by
  rw [List.filter_map, List.filter_map, List.filter_filter]
  congr 2
  funext token
  rw [shows_of_debug debug, handsOut]
  change (!token.kind.isTrivia && !(session.skipTrivia && token.kind.isTrivia)) =
    !token.kind.isTrivia
  cases token.kind.isTrivia <;> simp

/-- Where lexemes are ahead, the end was not met. -/
theorem Heard.endReached (told : Heard file source earlier heard session)
    (ahead : session.ahead ≠ []) : session.endReached = false := by
  cases met : session.endReached with
  | false => rfl
  | true => exact absurd (told.met met) ahead

/-- The lexemes ahead reach to the end of the source. -/
theorem Heard.stop (told : Heard file source earlier heard session) :
    session.cursor + Lexeme.totalLength session.ahead = Text.byteLength source := by
  rw [told.placed.stop, told.source]

/-- The tokens among more lexemes are those among the lexemes taken and those behind the cursor. -/
theorem Heard.tokensFrom_append (told : Heard file source earlier heard session)
    (others : List Lexeme) :
    Lexeme.tokensFrom 0 (earlier ++ others) =
      Lexeme.tokensFrom 0 earlier ++ Lexeme.tokensFrom session.cursor others := by
  rw [Lexeme.tokensFrom_append, Nat.zero_add, told.cursor]

/-- The tokens among the lexemes taken are lawful. -/
theorem Heard.lawful (told : Heard file source earlier heard session) {token : Token}
    (member : token ∈ Lexeme.tokensFrom 0 earlier) :
    (Lexeme.token token.kind token.text).isLawful = true := by
  have inside : Lexeme.token token.kind token.text ∈ Lexeme.ofText source := by
    rw [told.lexemes]
    exact List.mem_append_left _ (Lexeme.mem_of_mem_tokensFrom member)
  exact Lexeme.isLawful_of_mem (Lexeme.munched_ofText source) inside

/-- A scan that yields a token lets it be heard. -/
theorem Heard.yields (told : Heard file source earlier heard session) {taken : List Lexeme}
    (yields : session.Yields taken session.scan) :
    Heard file source (earlier ++ taken) (heard ++ Session.handed [session.scan])
      session.scan.2 := by
  have took := yields.took
  have unmet : session.endReached = false := by
    apply told.endReached
    rw [took.ahead]
    exact List.append_ne_nil_of_left_ne_nil yields.nonempty _
  have tokens := told.tokensFrom_append taken
  obtain ⟨kept, ends, same, sublist, counts, often⟩ := told.handed
  have never : ends = 0 := by
    apply Decidable.byContradiction
    intro some
    rw [often.mp some] at unmet
    contradiction
  refine
    { mode := took.mode.trans told.mode
      file := took.file.trans told.file
      source := took.source.trans told.source
      placed := told.placed.perform .scan
      lexemes := ?_
      cursor := ?_
      met := ?_
      handed := ?_
      diagnostics := ?_ }
  · rw [told.lexemes, took.ahead, List.append_assoc]
  · rw [took.cursor, told.cursor, Lexeme.totalLength_append]
  · rw [took.endReached, unmet]
    nofun
  · refine ⟨kept ++ Session.handed [session.scan], 0, ?_, ?_, ?_, ?_⟩
    · rw [same, never]
      simp
    · rw [tokens, List.map_append, yields.handed]
      exact sublist.append (List.filter_sublist.map _)
    · rw [tokens, List.map_append, List.filter_append, List.filter_append, counts, yields.handed,
        filter_counts_shows told.mode]
    · rw [took.endReached, unmet]
      simp
  · rw [yields.diagnostics told.mode, told.diagnostics, took.endReached, unmet, told.file,
      ← List.map_append, Lexeme.remarksFrom_append, Nat.zero_add, ← told.cursor]
    simp [remarksAt]

/-- A scan that meets the end lets it be heard. -/
theorem Heard.ended (told : Heard file source earlier heard session)
    (passes : session.PassesOver session.ahead)
    (made : session.scan =
      (.ok ⟨.endOfFile, [], session.cursor + Lexeme.totalLength session.ahead⟩,
        Move.ending.foldl act (session.takeAll session.ahead))) :
    Heard file source (earlier ++ session.ahead) (heard ++ Session.handed [session.scan])
      session.scan.2 := by
  have stop := told.stop
  have behind : session.Ended session.scan.2 := by
    rw [made]
    exact session.ended_takeAll
  have unseen := congrArg (List.map Token.scanned) (passes.filter_shows session.cursor)
  have silent := filter_counts_shows told.mode (Lexeme.tokensFrom session.cursor session.ahead)
  have tokens := told.tokensFrom_append session.ahead
  obtain ⟨kept, ends, same, sublist, counts, often⟩ := told.handed
  refine
    { mode := behind.mode.trans told.mode
      file := behind.file.trans told.file
      source := behind.source.trans told.source
      placed := told.placed.perform .scan
      lexemes := ?_
      cursor := ?_
      met := fun _ => behind.ahead
      handed := ?_
      diagnostics := ?_ }
  · rw [behind.ahead, List.append_nil, told.lexemes]
  · rw [behind.cursor, told.cursor, Lexeme.totalLength_append]
  · refine ⟨kept, ends + 1, ?_, ?_, ?_, ?_⟩
    · rw [same, made, stop, List.replicate_succ', List.append_assoc]
      rfl
    · rw [tokens, List.map_append]
      exact sublist.trans (List.sublist_append_left ..)
    · rw [tokens, List.map_append, List.filter_append, ← silent, unseen, counts]
      simp
    · simp [behind.endReached]
  · have unended : session.lacksFinalNewline = isUnended source := by
      rw [lacksFinalNewline, told.source]
      rfl
    rw [behind.diagnostics told.mode, told.diagnostics, behind.endReached, told.file, stop, unended,
      ← List.map_append, Lexeme.remarksFrom_append, Nat.zero_add, ← told.cursor]
    cases met : session.endReached with
    | false => simp [remarksAt]
    | true =>
      -- The end is met again, so there is nothing left to remark on.
      simp [told.met met, Lexeme.remarksFrom, remarksAt]

/-- Whatever scans pass over, what is heard of a source goes on in order. -/
theorem Heard.after (told : Heard file source earlier heard session) {calls : List Call}
    (only : ∀ call ∈ calls, call.Scans) :
    ∃ others, Heard file source (earlier ++ others)
      (heard ++ Session.handed (session.scansOf calls)) (session.after calls) := by
  induction calls generalizing session earlier heard with
  | nil => exact ⟨[], by simpa [scansOf, Session.handed, Session.after] using told⟩
  | cons call calls ih =>
    have later := fun other member => only other (List.mem_cons_of_mem call member)
    have goOn {taken : List Lexeme}
        (next : Heard file source (earlier ++ taken) (heard ++ Session.handed [session.scan])
          session.scan.2) :
        ∃ others, Heard file source (earlier ++ others)
          (heard ++ Session.handed (session.scansOf (.scan :: calls)))
          (session.after (.scan :: calls)) := by
      obtain ⟨others, behind⟩ := ih next later
      rw [List.append_assoc, List.append_assoc, ← handed_cons] at behind
      exact ⟨taken ++ others, behind⟩
    cases call with
    | scan =>
      have lineless := lineless_of_debug told.mode
      rcases told.placed.exists_yields_or_ended lineless with ⟨taken, yields⟩ | ⟨passes, made⟩
      · exact goOn (told.yields yields)
      · exact goOn (told.ended passes made)
    | setSkipTrivia skipTrivia =>
      have toggled : Heard file source earlier heard (session.setSkipTrivia skipTrivia) :=
        { told with placed := told.placed.perform (.setSkipTrivia skipTrivia) }
      exact ih toggled later
    | _ => exact absurd (only _ (List.mem_cons_self ..)) (by simp [Call.Scans])

/-- What a session that keeps notices hands out next is what its next scan does. -/
theorem exists_handed_persist_eq_cons (debug : session.mode = .debug) :
    ∃ token others, session.scan.1 = .ok token ∧
      Session.handed session.persist = ⟨token, session.scan.2.identifierClass⟩ :: others := by
  obtain ⟨token, answered⟩ : ∃ token, session.scan.1 = .ok token := by
    rw [scan, live_of_debug session _ debug]
    exact ⟨_, rfl⟩
  have first : Session.handed [session.scan] = [⟨token, session.scan.2.identifierClass⟩] := by
    simp [Session.handed, answered, Except.toOption]
  have whole : ∃ others, Session.handed session.persist =
      ⟨token, session.scan.2.identifierClass⟩ :: others := by
    rw [persist, persistWithin]
    simp only [answered]
    split
    · exact ⟨[], first⟩
    · rw [handed_cons, first]
      exact ⟨_, rfl⟩
  obtain ⟨others, same⟩ := whole
  exact ⟨token, others, answered, same⟩

/-- What a session hands out up to the end are the tokens of the source that are neither behind its
cursor nor to be passed over. -/
theorem Heard.filter_eq_handed (told : Heard file source earlier heard session) :
    ((Lexeme.tokensFrom 0 (Lexeme.ofText source)).map Token.scanned ++
        [Token.scanned ⟨.endOfFile, [], Text.byteLength source⟩]).filter
          (fun scanned => session.cursor ≤ scanned.token.position &&
            session.handsOut scanned.token.kind) =
      Session.handed session.persist := by
  have persists :=
    told.placed.persists (lineless_of_debug told.mode) (Nat.lt_succ_self session.ahead.length)
  have stop := told.stop
  let due (token : Token) : Bool := session.cursor ≤ token.position && session.handsOut token.kind
  have behind : (Lexeme.tokensFrom 0 earlier).filter due = [] := by
    rw [List.filter_eq_nil_iff]
    intro token member
    have positive := Text.byteLength_pos (Lexeme.text_ne_nil_of_isLawful (told.lawful member))
    have before := (Lexeme.position_le_of_mem_tokensFrom member).2
    have cursor := told.cursor
    simp only [Token.stop, Token.length, Lexeme.text] at before positive
    simp only [due, Bool.and_eq_true, decide_eq_true_eq, not_and]
    omega
  have ahead : (Lexeme.tokensFrom session.cursor session.ahead).filter due =
      (Lexeme.tokensFrom session.cursor session.ahead).filter session.shows := by
    apply List.filter_congr
    intro token member
    have reached := (Lexeme.position_le_of_mem_tokensFrom member).1
    simp [due, reached, shows_of_debug told.mode]
  have shown : due ⟨.endOfFile, [], Text.byteLength source⟩ = true := by
    have within : session.cursor ≤ Text.byteLength source := by omega
    simp [due, within, handsOut, TokenKind.isTrivia]
  have last : [Token.scanned ⟨.endOfFile, [], Text.byteLength source⟩].filter
      (fun scanned => due scanned.token) =
        [⟨⟨.endOfFile, [], Text.byteLength source⟩, none⟩] := List.filter_cons_of_pos shown
  have tokens := told.tokensFrom_append session.ahead
  rw [← told.lexemes] at tokens
  have each : (fun scanned : Scanned => due scanned.token) ∘ Token.scanned = due := rfl
  change List.filter (fun scanned : Scanned => due scanned.token) _ = _
  rw [persist, persists.tokens, stop, List.filter_append, List.filter_map, each, tokens,
    List.filter_append, behind, List.nil_append, ahead, last]

/-- What scans that may pass over layout have to do with scans of the same source that hand out
everything, where the next scan is told to pass over layout or not to. -/
structure Filters (surfacing : List (Except Failure Token × Session)) (heard : List Scanned)
    (skips : Bool) (session : Session) : Prop where
  /-- The next scan hands out the first of all tokens that is neither behind the cursor nor to be
  passed over. -/
  next : ∃ found,
    (handed surfacing).find? (fun scanned => session.cursor ≤ scanned.token.position &&
      !(skips && scanned.token.kind.isTrivia)) = some found ∧
    session.scan.1 = .ok found.token ∧
    session.scan.2.identifierClass = found.identifierClass
  /-- The first of all tokens were handed out but for some layout, and then the end of the source,
  as often as it was met. -/
  order : ∃ early later stop kept ends,
    handed surfacing = early ++ later ++ [stop] ∧ stop.token.kind = .endOfFile ∧
    heard = kept ++ List.replicate ends stop ∧
    kept.Sublist early ∧ kept.filter Scanned.counts = early.filter Scanned.counts ∧
    (ends ≠ 0 → later = [])
  /-- If the end was handed out, the diagnostics are the same. -/
  diagnostics : (∃ scanned ∈ heard, scanned.token.kind = .endOfFile) →
    ∃ others last, surfacing = others ++ [last] ∧ session.diagnostics = last.2.diagnostics

/-- Passing over layout leaves out layout and nothing else, whenever scans of a source are told to
pass over it, and whenever they are told not to. What they were told last decides. -/
theorem scans_filter_surfaced (file : String) (source : List Char) (calls : List Call)
    (only : ∀ call ∈ calls, call.Scans) :
    let fresh := ofSource file source .debug
    Filters fresh.persist (handed (fresh.scansOf calls)) (skipsAfter calls) (fresh.after calls) := by
  intro fresh
  let session := fresh.after calls
  let stop : Scanned := ⟨⟨.endOfFile, [], Text.byteLength source⟩, none⟩
  obtain ⟨earlier, told⟩ := (heard_ofSource file source).after only
  rw [List.nil_append, List.nil_append] at told
  have debug : session.mode = .debug := told.mode
  have placed : fresh.Placed := placed_ofSource file source .debug
  have persists : fresh.Persists fresh.persist :=
    placed.persists (lineless_of_debug rfl) (Nat.lt_succ_self _)
  have length : fresh.cursor + Lexeme.totalLength fresh.ahead = Text.byteLength source :=
    placed.stop
  obtain ⟨others, last, surfacing, remarks⟩ := persists.ended
  rw [length] at surfacing
  have surfaced : handed fresh.persist =
      (Lexeme.tokensFrom 0 (Lexeme.ofText source)).map Token.scanned ++ [stop] := by
    have all : fresh.shows = fun _ => true := rfl
    rw [persists.tokens, length, all, List.filter_eq_self.mpr fun _ _ => rfl]
    rfl
  obtain ⟨kept, ends, same, sublist, counts, often⟩ := told.handed
  refine ⟨?_, ⟨(Lexeme.tokensFrom 0 earlier).map Token.scanned,
    (Lexeme.tokensFrom session.cursor session.ahead).map Token.scanned, stop, kept, ends, ?_, rfl,
    same, sublist, counts, ?_⟩, ?_⟩
  · obtain ⟨token, behind, answered, first⟩ := exists_handed_persist_eq_cons debug
    refine ⟨⟨token, session.scan.2.identifierClass⟩, ?_, answered, rfl⟩
    have lastTold : session.skipTrivia = skipsAfter calls := skipTrivia_after fresh calls
    rw [← List.head?_filter, surfaced, ← lastTold]
    exact congrArg List.head? (told.filter_eq_handed.trans first)
  · rw [surfaced, ← List.map_append, ← told.tokensFrom_append, ← told.lexemes]
  · intro met
    rw [told.met (often.mp met)]
    rfl
  · rintro ⟨scanned, member, isEnd⟩
    have met : session.endReached = true := by
      rw [same] at member
      rcases List.mem_append.mp member with inside | behind
      · -- No lexeme is the end of the source.
        obtain ⟨token, there, rfl⟩ := List.mem_map.mp (sublist.subset inside)
        exact absurd isEnd (Lexeme.kind_ne_endOfFile (told.lawful there))
      · exact often.mp (List.mem_replicate.mp behind).1
    have all : Lexeme.ofText source = earlier := by
      rw [told.lexemes, told.met met, List.append_nil]
    have kept : session.diagnostics.toList = last.diagnostics.toList := by
      rw [told.diagnostics, remarks rfl, length, met, ← all]
      rfl
    exact ⟨others, _, surfacing, Array.toList_inj.mp kept⟩

/-- The blank behind a name is handed out, as scans are told to pass over layout but also not to.
Then they are told to pass over it again, and the next scan comes to the end, behind a lone carriage
return and a comment with a stray character between them; so does the one behind it. -/
theorem scans_filter_surfaced_toggled :
    let early : List Call :=
      [.scan, .setSkipTrivia true, .setSkipTrivia false, .scan, .setSkipTrivia true]
    let calls := early ++ [.scan, .scan]
    let fresh := ofSource "a" "nop \r?;end".toList .debug
    (∀ call ∈ calls, call.Scans) ∧
      Filters fresh.persist (handed (fresh.scansOf early)) true (fresh.after early) ∧
      Filters fresh.persist (handed (fresh.scansOf calls)) true (fresh.after calls) := by
  intro early calls fresh
  have only : ∀ call ∈ calls, call.Scans := by
    intro call member
    simp only [calls, early, List.cons_append, List.nil_append, List.mem_cons, List.not_mem_nil,
      or_false] at member
    rcases member with rfl | rfl | rfl | rfl | rfl | rfl | rfl <;> trivial
  have onlyEarly : ∀ call ∈ early, call.Scans :=
    fun call member => only call (List.mem_append_left _ member)
  exact ⟨only, scans_filter_surfaced "a" _ early onlyEarly, scans_filter_surfaced "a" _ calls only⟩

end Assembly8085.Session
