import Assembly8085.Proofs.Decoding
import Assembly8085.Proofs.Letters
import Assembly8085.Proofs.Literal
import Assembly8085.Proofs.Scan
import Assembly8085.SyntaxTree.Print

/-!
# Spellings of numbers

A number can be spelled in many ways: with its digits in one of four radices, behind any number of
zeros, in small or capital letters, with separators, and with a marker in front of the digits,
behind them or nowhere to say the radix. Each spelling decodes to the number and is scanned as a
single integer. One of them is what trees are printed with.
-/
namespace Assembly8085

namespace Numeral

/-- Digits count the same in either case. -/
theorem digitValue?_toLower (c : Char) : digitValue? c.toLower = digitValue? c := by
  refine forall_char (motive := fun c => digitValue? c.toLower = digitValue? c) (by decide) ?_ c
  intro c large
  have small : ¬ (c.val ≥ 'A'.val ∧ c.val ≤ 'Z'.val) := by
    intro capital
    have bounds := isUpper_iff_toNat.mp (decide_eq_true capital)
    omega
  have same : c.toLower = c := dif_neg small
  rw [same]

/-- Whether digits and separators spell a number in a radix: they are its digits, but for zeros in
front, separators and the case of letters. -/
def Spells (radix number : Nat) (digits : List Char) : Prop :=
  ∃ zeros, (digits.filter (· != '_')).map Char.toLower =
    List.replicate zeros '0' ++ Nat.toDigits radix number

example : Spells 16 0xb1 "0_B1".toList := ⟨1, by decide⟩

variable {radix number : Nat} {digits : List Char}

/-- What spells a number are separators and digits of the radix. -/
theorem Spells.among (spells : Spells radix number digits) (more : 1 < radix)
    (few : radix ≤ 16) {c : Char} (member : c ∈ digits) (other : c ≠ '_') :
    ∃ digit < radix, digitValue? c = some digit := by
  obtain ⟨zeros, same⟩ := spells
  have there : c.toLower ∈ List.replicate zeros '0' ++ Nat.toDigits radix number := by
    rw [← same]
    exact List.mem_map_of_mem (List.mem_filter.mpr ⟨member, by simpa using other⟩)
  rw [← digitValue?_toLower]
  rcases List.mem_append.mp there with zero | proper
  · rw [(List.mem_replicate.mp zero).2]
    exact ⟨0, by omega, rfl⟩
  · obtain ⟨digit, small, char⟩ := exists_digitChar_of_mem_toDigits more proper
    rw [char]
    exact ⟨digit, small, digitValue?_digitChar (by omega)⟩

/-- What spells a number is not separators alone. -/
theorem Spells.exists_digit (spells : Spells radix number digits) : ∃ c ∈ digits, c ≠ '_' := by
  obtain ⟨zeros, same⟩ := spells
  have held : digits.filter (· != '_') ≠ [] := by
    intro nothing
    rw [nothing, List.map_nil, eq_comm, List.append_eq_nil_iff] at same
    exact Nat.toDigits_ne_nil same.2
  obtain ⟨c, member⟩ := List.exists_mem_of_ne_nil _ held
  obtain ⟨there, other⟩ := List.mem_filter.mp member
  exact ⟨c, there, by simpa using other⟩

/-- Zeros in front of digits add nothing. -/
theorem foldlM_zeros (radix zeros : Nat) (positive : 0 < radix) :
    (List.replicate zeros '0').foldlM (appendDigit? radix) 0 = some 0 := by
  induction zeros with
  | zero => rfl
  | succ zeros ih =>
    have step : appendDigit? radix 0 '0' = some 0 := by
      have counts : digitValue? '0' = some 0 := rfl
      simp [appendDigit?, counts, positive]
    rw [List.replicate_succ, List.foldlM_cons, step]
    exact ih

/-- What spells a number makes up the number without its separators. -/
theorem Spells.ofDigits_eq (spells : Spells radix number digits) (more : 1 < radix)
    (few : radix ≤ 16) : ofDigits radix (digits.filter (· != '_')) = number := by
  have each : ∀ c ∈ digits.filter (· != '_'), ∃ digit < radix, digitValue? c = some digit := by
    intro c member
    obtain ⟨there, other⟩ := List.mem_filter.mp member
    exact spells.among more few there (by simpa using other)
  have total := foldlM_appendDigit? each 0
  obtain ⟨zeros, same⟩ := spells
  have sum : (digits.filter (· != '_')).foldlM (appendDigit? radix) 0 = some number := by
    have cased : appendDigit? radix = fun total c => appendDigit? radix total c.toLower := by
      funext total c
      rw [appendDigit?, appendDigit?, digitValue?_toLower]
    rw [cased, ← List.foldlM_map, same, List.foldlM_append, foldlM_zeros radix zeros (by omega)]
    exact foldlM_toDigits more few number
  rw [total, Nat.zero_mul, Nat.zero_add] at sum
  exact Option.some.inj sum

end Numeral

namespace Literal

/-- The spellings of a number. Where the digits come first, they start with a decimal digit. -/
inductive Denotes (number : Nat) : List Char → Prop
  /-- Decimal digits alone. -/
  | unmarked {digits : List Char} (spells : Numeral.Spells 10 number digits)
      (opens : digits.head?.any Char.isDigit = true) : Denotes number digits
  /-- A zero, a marker and digits. -/
  | leading (base : Base) {marker : Char} (named : marker ∈ base.leadingMarkers)
      {digits : List Char} (spells : Numeral.Spells base.radix number digits) :
      Denotes number ('0' :: marker :: digits)
  /-- Digits and a marker. -/
  | trailing (base : Base) {digits : List Char}
      (spells : Numeral.Spells base.radix number digits)
      (opens : digits.head?.any Char.isDigit = true)
      {marker : Char} (named : marker ∈ base.trailingMarkers) :
      Denotes number (digits ++ [marker])

/-- Each base has two digits at least and sixteen at most. -/
theorem Base.radix_bounds (base : Base) : 1 < base.radix ∧ base.radix ≤ 16 := by
  cases base <;> decide

/-- What spells a number in the radix of a base are digits of the base and separators. -/
theorem mem_digits_of_spells {base : Base} {number : Nat} {digits : List Char}
    (spells : Numeral.Spells base.radix number digits) :
    ∀ c ∈ digits, c ∈ '_' :: base.digits := by
  intro c member
  by_cases other : c = '_'
  · exact List.mem_cons.mpr (.inl other)
  · obtain ⟨digit, small, counts⟩ :=
      spells.among base.radix_bounds.1 base.radix_bounds.2 member other
    refine List.mem_cons_of_mem _ ((base.isDigit_iff_mem c).mp ?_)
    simp [Base.isDigit, counts, small]

/-- What spells a number and starts with a decimal digit is a run of digits. -/
theorem isRun_of_spells (base : Base) {number : Nat} {digits : List Char}
    (spells : Numeral.Spells base.radix number digits)
    (opens : digits.head?.any Char.isDigit = true) : Shape.isRun base digits = true := by
  have among := mem_digits_of_spells spells
  cases digits with
  | nil => contradiction
  | cons first rest =>
    obtain ⟨here, behind⟩ := List.forall_mem_cons.mp among
    have decimal : first.isDigit = true := opens
    have digit : first ∈ base.digits := by
      refine (List.mem_cons.mp here).resolve_left ?_
      rintro rfl
      contradiction
    refine Shape.isRun_iff.mpr ⟨first, rest, rfl, (base.mem_firstDigits_iff first).mpr ?_, behind⟩
    exact ⟨decimal, (base.isDigit_iff_mem first).mpr digit⟩

/-- The spellings of a number have a shape, and the number is that of their digits. -/
theorem Denotes.exists_shape {number : Nat} {text : List Char} (denotes : Denotes number text) :
    ∃ shape : Shape, shape.accepts text = true ∧ (∃ c ∈ shape.digits text, c ≠ '_') ∧
      shape.value text = number := by
  cases denotes with
  | unmarked spells opens =>
    exact ⟨.unmarked, isRun_of_spells .decimal spells opens, spells.exists_digit,
      spells.ofDigits_eq (by decide) (by decide)⟩
  | leading base named spells =>
    obtain ⟨c, member, _⟩ := spells.exists_digit
    exact ⟨.leading base, Shape.accepts_leading_iff.mpr
      ⟨_, _, rfl, named, List.ne_nil_of_mem member, mem_digits_of_spells spells⟩,
      spells.exists_digit, spells.ofDigits_eq base.radix_bounds.1 base.radix_bounds.2⟩
  | trailing base spells opens named =>
    refine ⟨.trailing base, Shape.accepts_trailing_iff.mpr
      ⟨_, _, rfl, named, isRun_of_spells base spells opens⟩, ?_, ?_⟩
    · rw [Shape.digits, List.dropLast_concat]
      exact spells.exists_digit
    · rw [Shape.value, Shape.digits, List.dropLast_concat]
      exact spells.ofDigits_eq base.radix_bounds.1 base.radix_bounds.2

/-- The spellings of a number decode to it if 64 bits are enough for it. -/
theorem Denotes.decode_eq {value : UInt64} {text : List Char}
    (denotes : Denotes value.toNat text) : decode text = some value := by
  obtain ⟨shape, accepted, digit, same⟩ := denotes.exists_shape
  exact (Shape.decode_eq_some_iff_of_accepts accepted value).mpr ⟨digit, same.symm⟩

/-- The rendering of a value spells the number. -/
theorem denotes_render (value : UInt64) : Denotes value.toNat (render value) := by
  have facts (c : Char) (member : c ∈ renderDigits value) : c ≠ '_' ∧ c.toLower = c := by
    obtain ⟨digit, small, rfl⟩ := exists_digitChar_of_mem_renderDigits member
    exact digitChar_facts small
  have all : (renderDigits value).filter (· != '_') = renderDigits value :=
    List.filter_eq_self.mpr fun c member => bne_iff_ne.mpr (facts c member).1
  have small : (renderDigits value).map Char.toLower = renderDigits value :=
    (List.map_congr_left fun c member => (facts c member).2).trans (List.map_id _)
  rw [render_eq]
  refine .trailing .hexadecimal ?_ ?_ (by decide)
  · rw [Numeral.Spells, all, small, renderDigits]
    split
    · exact ⟨0, rfl⟩
    · exact ⟨1, rfl⟩
  · obtain ⟨first, rest, same, decimal⟩ := exists_renderDigits_eq_cons value
    rw [same]
    exact decimal

/-- The rendering of a value has the value. What could go wrong is that its first digits look like
a marker; but only the marker of hexadecimal would win over the one behind the digits, and it is no
digit. -/
theorem decode_render (value : UInt64) : decode (render value) = some value :=
  (denotes_render value).decode_eq

/-- The marker of hexadecimal behind the digits wins over that of binary in front of them. -/
example : render 177 = ['0', 'b', '1', 'h'] ∧ decode ['0', 'b', '1', 'h'] = some 177 := by
  decide

/-- An integer goes on with what stands among digits and with markers. -/
theorem continuesWith_integer (base : Base) :
    (∀ c ∈ '_' :: base.digits, TokenKind.integer.continuesWith c = true) ∧
      (∀ c ∈ base.leadingMarkers, TokenKind.integer.continuesWith c = true) ∧
      ∀ c ∈ base.trailingMarkers, TokenKind.integer.continuesWith c = true := by
  simp only [← List.all_eq_true]
  cases base <;> decide

/-- An integer starts with any digit that a run of digits may start with. -/
theorem startedBy?_of_mem_firstDigits {base : Base} {c : Char} (first : c ∈ base.firstDigits) :
    TokenKind.startedBy? c = some .integer := by
  have each : ∀ c ∈ base.firstDigits, TokenKind.startedBy? c = some .integer :=
    List.all_iff_forall_prop.mp (by cases base <;> decide)
  exact each c first

/-- A text of a shape is a lawful integer. -/
theorem isLawful_of_accepts {shape : Shape} {text : List Char}
    (accepted : shape.accepts text = true) :
    (Lexeme.token .integer text).isLawful = true := by
  have opened (c : Char) (more : List Char) (starts : TokenKind.startedBy? c = some .integer)
      (goesOn : ∀ d ∈ more, TokenKind.integer.continuesWith d = true) :
      (Lexeme.token .integer (c :: more)).isLawful = true := by
    simp only [Lexeme.isLawful, starts, List.all_eq_true.mpr goesOn, beq_self_eq_true,
      Bool.true_or, Bool.and_self]
  cases shape with
  | unmarked =>
    obtain ⟨first, rest, rfl, decimal, others⟩ := Shape.isRun_iff.mp accepted
    exact opened first rest (startedBy?_of_mem_firstDigits decimal) fun c member =>
      (continuesWith_integer .decimal).1 c (others c member)
  | leading base =>
    obtain ⟨marker, digits, rfl, named, _, among⟩ := Shape.accepts_leading_iff.mp accepted
    refine opened '0' (marker :: digits) (by decide) (List.forall_mem_cons.mpr ⟨?_, ?_⟩)
    · exact (continuesWith_integer base).2.1 marker named
    · exact fun c member => (continuesWith_integer base).1 c (among c member)
  | trailing base =>
    obtain ⟨digits, marker, rfl, named, run⟩ := Shape.accepts_trailing_iff.mp accepted
    obtain ⟨first, rest, rfl, decimal, others⟩ := Shape.isRun_iff.mp run
    refine opened first (rest ++ [marker]) (startedBy?_of_mem_firstDigits decimal) ?_
    rw [List.forall_mem_append, List.forall_mem_singleton]
    exact ⟨fun c member => (continuesWith_integer base).1 c (others c member),
      (continuesWith_integer base).2.2 marker named⟩

/-- A text that has a value is a lawful integer. -/
theorem isLawful_of_decode {value : UInt64} {text : List Char}
    (found : decode text = some value) : (Lexeme.token .integer text).isLawful = true := by
  obtain ⟨shape, accepted⟩ := Shape.exists_of_decode found
  exact isLawful_of_accepts accepted

end Literal

namespace Session

/-- A move that brings up no error adds none to those kept. -/
theorem hasErrors_act (session : Session) {move : Move} (fine : move.error? = none) :
    (session.act move).hasErrors = session.hasErrors := by
  cases mode : session.mode with
  | debug =>
    have kept := errors_act mode move
    rw [fine, Option.toList_none, List.append_nil] at kept
    have same := congrArg List.isEmpty kept
    rw [List.isEmpty_map, List.isEmpty_map] at same
    rw [hasErrors_eq, hasErrors_eq, same]
  | failFast => rw [hasErrors, hasErrors, diagnostics_act_of_failFast mode]

/-- If a token is all that is ahead, is handed out and gives rise to nothing to say, scans hand
out it alone, and there are no more errors than before. -/
theorem scanAll_token (session : Session) {kind : TokenKind} {text : List Char}
    (ahead : session.ahead = [.token kind text]) (handed : session.handsOut kind = true)
    (silent : (Lexeme.token kind text).notice? = none) (proper : kind ≠ .endOfFile) :
    session.scanAll.1 = ([Token.scanned ⟨kind, text, session.cursor⟩], none) ∧
      session.scanAll.2.hasErrors = session.hasErrors := by
  have outlives : session.Outlives (.token kind text) := by
    intro notice noticed
    rw [silent] at noticed
    contradiction
  obtain ⟨first, _, _, behind, _, identifierClass⟩ := scan_token ahead outlives handed
  have quiet : (((Move.taking (.token kind text)).foldl act session).surface kind).hasErrors =
      session.hasErrors := by
    rw [Move.taking, silent]
    calc ((session.act (.take (.token kind text))).act (.surface kind)).hasErrors
        = (session.act (.take (.token kind text))).hasErrors := hasErrors_act _ rfl
      _ = session.hasErrors := hasErrors_act _ rfl
  generalize ((Move.taking (.token kind text)).foldl act session).surface kind = after at *
  have all : session.scanAll =
      (([Token.scanned ⟨kind, text, session.cursor⟩], none), Move.ending.foldl act after) := by
    rw [scanAll, ahead, List.length_singleton, scanWithin, first]
    simp only [proper, if_false]
    rw [scanWithin, scan_nil behind]
    simp [identifierClass, Token.scanned]
  rw [all]
  refine ⟨rfl, ?_⟩
  calc (Move.ending.foldl act after).hasErrors
      = ((after.act .meetEnd).act (.surface .endOfFile)).hasErrors := rfl
    _ = (after.act .meetEnd).hasErrors := hasErrors_act _ rfl
    _ = after.hasErrors := hasErrors_act _ rfl
    _ = session.hasErrors := quiet

end Session

namespace Literal

/-- A text that has a value is scanned as a single integer, without an error. -/
theorem scanAll_of_decode {value : UInt64} {text : List Char} (found : decode text = some value)
    (file : String) (mode : Mode) (skipTrivia : Bool) :
    let run := ((Session.ofSource file text mode).setSkipTrivia skipTrivia).scanAll
    run.1 = ([⟨⟨.integer, text, 0⟩, none⟩], none) ∧ run.2.hasErrors = false := by
  have lawful := isLawful_of_decode found
  have silent : (Lexeme.token .integer text).notice? = none := by
    simp [Lexeme.notice?, found]
  intro run
  let fresh := (Session.ofSource file text mode).setSkipTrivia skipTrivia
  have handed : fresh.handsOut .integer = true := by
    cases skipTrivia <;> rfl
  have none_yet : fresh.hasErrors = false := by
    simp [fresh, Session.hasErrors, Session.setSkipTrivia, Session.ofSource]
  obtain ⟨tokens, errors⟩ := fresh.scanAll_token
    (Lexeme.ofText_of_isLawful lawful) handed silent (by decide)
  exact ⟨tokens, errors.trans none_yet⟩

/-- **Numbers survive every spelling.** Whatever radix, marker, zeros in front, case and separators
a number of at most 64 bits is spelled with, the spelling decodes to the number, and scans of it
alone hand out a single integer and meet no error, however they treat notices and layout. Each
integer of a tree is printed as a spelling of its value. -/
theorem decode_of_denotes (value : UInt64) :
    (∀ text, Denotes value.toNat text →
      decode text = some value ∧
      ∀ (file : String) (mode : Mode) (skipTrivia : Bool),
        let run := ((Session.ofSource file text mode).setSkipTrivia skipTrivia).scanAll
        run.1 = ([⟨⟨.integer, text, 0⟩, none⟩], none) ∧ run.2.hasErrors = false) ∧
    ∀ (tree : SyntaxTree) (id : NodeId) (node : Node), tree.node id = .ok node →
      node.data = .integer value →
      ∃ text, tree.printFrom id = .ok text ∧ Denotes value.toNat text ∧
        decode text = some value := by
  constructor
  · intro text denotes
    exact ⟨denotes.decode_eq, scanAll_of_decode denotes.decode_eq⟩
  · intro tree id node there data
    have printed : tree.printFrom id = .ok (render value) := by
      rw [SyntaxTree.printFrom, SyntaxTree.fold, SyntaxTree.foldWithin, there]
      simp only [bind, Except.bind, data, NodeData.traverse]
      rfl
    exact ⟨render value, printed, denotes_render value, decode_render value⟩

end Literal

end Assembly8085
