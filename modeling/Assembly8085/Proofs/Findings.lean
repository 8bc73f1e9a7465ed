import Mathlib.Data.List.Induction
import Assembly8085.Proofs.Scan
import Assembly8085.Proofs.Tiling

/-!
# What scans find

The diagnostics of scans can be read off the characters of a source. Outside comments each
character that no token is made of is told, each carriage return without its line feed, each number
without a value, and at last a last line without an end. Nothing else is told and nothing twice,
whatever scans pass over.
-/
namespace Assembly8085

/-- What there is to remark on in a source: on its characters, on the tokens that it is scanned as,
and on its end. -/
inductive Finding (source : List Char) (tokens : List Token) : Remark → Prop
  /-- A character that no token is made of is in no comment. -/
  | stray {before after : List Char} {c : Char} (whole : source = before ++ c :: after)
    (unexpected : isExpected c = false) (outside : ¬ InComment (before ++ [c])) :
    Finding source tokens ⟨.unexpectedCharacter c, Text.byteLength before, c.utf8Size⟩
  /-- A carriage return has no line feed right behind it. -/
  | lone {before after : List Char} (whole : source = before ++ '\r' :: after)
    (alone : after.head? ≠ some '\n') :
    Finding source tokens ⟨.expectedLineFeed, Text.byteLength before, 1⟩
  /-- A number has no value. -/
  | malformed {token : Token} (member : token ∈ tokens) (integer : token.kind = .integer)
    (valueless : Literal.decode token.text = none) :
    Finding source tokens ⟨.malformedInteger token.text, token.position, token.length⟩
  /-- The last character ends no line. -/
  | unended {front : List Char} {c : Char} (whole : source = front ++ [c]) (feed : c ≠ '\n')
    (carriage : c ≠ '\r') :
    Finding source tokens ⟨.expectedFinalNewline, Text.byteLength source, 0⟩

/-- A character that starts no comment and ends no line is in a comment if what is in front of it
breaks off within one. -/
theorem inComment_concat_iff {before : List Char} {c : Char} (sameLine : isLineBreak c = false)
    (other : c ≠ ';') : InComment (before ++ [c]) ↔ InComment before := by
  constructor
  · rintro ⟨front, line, whole, none⟩
    cases line using List.reverseRecOn with
    | nil => exact absurd (List.cons.inj (List.append_inj' whole rfl).2).1 other
    | append_singleton line last =>
      have whole : before ++ [c] = (front ++ ';' :: line) ++ [last] := by simp [whole]
      exact ⟨front, line, (List.append_inj' whole rfl).1,
        fun d member => none d (List.mem_append_left _ member)⟩
  · rintro ⟨front, line, rfl, none⟩
    refine ⟨front, line ++ [c], by simp, fun d member => ?_⟩
    rcases List.mem_append.mp member with inside | last
    · exact none d inside
    · rw [List.mem_singleton.mp last]
      exact sameLine

/-- An unexpected character is in a comment exactly if what is in front of it breaks off within
one. -/
theorem inComment_concat_iff_of_unexpected {before : List Char} {c : Char}
    (unexpected : isExpected c = false) : InComment (before ++ [c]) ↔ InComment before := by
  simp only [isExpected, Bool.or_eq_false_iff, decide_eq_false_iff_not, List.mem_cons,
    List.not_mem_nil, or_false, not_or] at unexpected
  exact inComment_concat_iff (by simp [isLineBreak, unexpected]) unexpected.2.2.2.2.2.1

namespace Lexeme

/-- A lawful token with a carriage return in it is the end of a line and starts with it. -/
theorem terminator_of_mem {kind : TokenKind} {characters : List Char}
    (lawful : (Lexeme.token kind characters).isLawful = true) (member : '\r' ∈ characters) :
    kind = .terminator ∧ (characters = ['\r'] ∨ characters = ['\r', '\n']) := by
  have terminator : kind = .terminator := by
    obtain ⟨c, more, rfl⟩ := List.exists_cons_of_ne_nil (List.ne_nil_of_mem member)
    obtain ⟨starts, continued⟩ := isLawful_cons_iff.mp lawful
    rcases List.mem_cons.mp member with rfl | behind
    · exact eq_terminator_of_startedBy? (startedBy?_eq_some_iff.mpr starts)
    · rcases continued with run | ⟨_, rfl⟩
      · have refused := run '\r' behind
        cases kind <;> contradiction
      · simp at behind
  subst terminator
  refine ⟨rfl, ?_⟩
  rcases TokenKind.admits_iff_isLawful.mpr lawful with rfl | rfl | rfl
  · contradiction
  · exact .inr rfl
  · exact .inl rfl

/-- A carriage return alone has nothing around it. -/
theorem eq_nil_of_single {front back : List Char} (whole : front ++ '\r' :: back = ['\r']) :
    front = [] ∧ back = [] := by
  have pieces := List.append_eq_singleton_iff.mp whole
  simpa using pieces

/-- A carriage return with its line feed has nothing else around it. -/
theorem eq_feed_of_pair {front back : List Char} (whole : front ++ '\r' :: back = ['\r', '\n']) :
    front = [] ∧ back = ['\n'] := by
  cases front with
  | nil => exact ⟨rfl, (List.cons.inj whole).2⟩
  | cons first others =>
    have behind : others ++ '\r' :: back = ['\n'] := (List.cons.inj whole).2
    simp [List.append_eq_singleton_iff] at behind

/-- A line end is a carriage return alone exactly where no line feed follows one. -/
theorem exists_lone_iff {source before : List Char} :
    (∃ earlier later, ofText source = earlier ++ .token .terminator ['\r'] :: later ∧
        earlier.flatMap text = before) ↔
      ∃ after, source = before ++ '\r' :: after ∧ after.head? ≠ some '\n' := by
  have munched := munched_ofText source
  have whole := flatMap_text_ofText source
  constructor
  · rintro ⟨earlier, later, same, rfl⟩
    rw [same] at munched whole
    refine ⟨later.flatMap text, ?_, fun feed => ?_⟩
    · rw [← whole]
      simp [text]
    · have refused := (Munched.of_append munched).2.1 '\n' feed
      contradiction
  · rintro ⟨after, rfl, alone⟩
    obtain ⟨earlier, lexeme, later, front, back, same, held, rfl, rfl⟩ :=
      exists_of_flatMap_text_eq whole
    rw [same] at munched
    have lawful : lexeme.isLawful = true := isLawful_of_mem munched (by simp)
    have member : '\r' ∈ lexeme.text := by simp [held]
    cases lexeme with
    | stray c =>
      obtain rfl := List.mem_singleton.mp member
      contradiction
    | token kind characters =>
      obtain ⟨rfl, single | pair⟩ := terminator_of_mem lawful member
      · obtain ⟨rfl, rfl⟩ := eq_nil_of_single (held.symm.trans single)
        exact ⟨earlier, later, single ▸ same, (List.append_nil _).symm⟩
      · -- The line feed of the pair would be the character behind the carriage return.
        obtain ⟨rfl, rfl⟩ := eq_feed_of_pair (held.symm.trans pair)
        exact absurd rfl alone

/-- The remarks on lexemes by themselves are about the stretch of the lexemes. -/
theorem position_of_mem_remarksFrom {position : Nat} {lexemes : List Lexeme}
    (lawful : ∀ lexeme ∈ lexemes, lexeme.isLawful = true) {remark : Remark}
    (member : remark ∈ remarksFrom position lexemes) :
    position ≤ remark.position ∧ remark.position < position + totalLength lexemes := by
  obtain ⟨earlier, lexeme, later, rfl, _, place, _⟩ := mem_remarksFrom_iff.mp member
  have held := Text.byteLength_pos (text_ne_nil_of_isLawful (lawful lexeme (by simp)))
  rw [totalLength_append, totalLength_cons]
  omega

/-- Each remark on lexemes by themselves is about an earlier place than the next one. -/
theorem pairwise_remarksFrom (position : Nat) {lexemes : List Lexeme}
    (lawful : ∀ lexeme ∈ lexemes, lexeme.isLawful = true) :
    (remarksFrom position lexemes).Pairwise (·.position < ·.position) := by
  induction lexemes generalizing position with
  | nil => exact .nil
  | cons lexeme others ih =>
    have lawfulBehind := fun other member => lawful other (List.mem_cons_of_mem lexeme member)
    have held := Text.byteLength_pos
      (text_ne_nil_of_isLawful (lawful lexeme (List.mem_cons_self ..)))
    rw [remarksFrom, remarksAt]
    cases lexeme.notice? with
    | none => exact ih _ lawfulBehind
    | some notice =>
      refine .cons (fun remark member => ?_) (ih _ lawfulBehind)
      have behind := (position_of_mem_remarksFrom lawfulBehind member).1
      change position < remark.position
      omega

end Lexeme

/-- A source has a last line without an end if its last character ends none. -/
theorem isUnended_iff {source : List Char} :
    isUnended source = true ↔ ∃ front c, source = front ++ [c] ∧ c ≠ '\n' ∧ c ≠ '\r' := by
  cases source using List.reverseRecOn with
  | nil => simp [isUnended]
  | append_singleton front last =>
    simp only [isUnended, List.getLast?_concat, Option.any_some, isLineBreak, Bool.not_eq_true',
      Bool.or_eq_false_iff, decide_eq_false_iff_not]
    constructor
    · exact fun other => ⟨front, last, rfl, other⟩
    · rintro ⟨others, c, same, other⟩
      rwa [(List.cons.inj (List.append_inj' same rfl).2).1]

/-- The remarks that scans of a source keep. -/
def scanRemarks (source : List Char) : List Remark :=
  Lexeme.remarksFrom 0 (Lexeme.ofText source) ++
    remarksAt (Text.byteLength source) 0
      (if isUnended source then some .expectedFinalNewline else none)

/-- Each remark that scans keep is about an earlier place than the next one. -/
theorem pairwise_scanRemarks (source : List Char) :
    (scanRemarks source).Pairwise (·.position < ·.position) := by
  have lawful : ∀ lexeme ∈ Lexeme.ofText source, lexeme.isLawful = true :=
    fun _ member => Lexeme.isLawful_of_mem (Lexeme.munched_ofText source) member
  rw [scanRemarks, List.pairwise_append]
  refine ⟨Lexeme.pairwise_remarksFrom 0 lawful, ?_, fun remark member last final => ?_⟩
  · cases isUnended source with
    | true => exact List.pairwise_singleton _ _
    | false => exact .nil
  · obtain ⟨notice, _, rfl⟩ := List.mem_map.mp final
    have inside := (Lexeme.position_of_mem_remarksFrom lawful member).2
    rwa [Nat.zero_add, Lexeme.totalLength_ofText] at inside

/-- A remark on a lexeme by itself is a finding, for any tokens among which the numbers are. -/
theorem finding_of_mem_remarksFrom {source : List Char} {tokens : List Token}
    (numbers : ∀ token ∈ Lexeme.tokensFrom 0 (Lexeme.ofText source), token.kind = .integer →
      token ∈ tokens)
    {remark : Remark} (member : remark ∈ Lexeme.remarksFrom 0 (Lexeme.ofText source)) :
    Finding source tokens remark := by
  obtain ⟨earlier, lexeme, later, cut, noticed, place, length⟩ :=
    Lexeme.mem_remarksFrom_iff.mp member
  obtain ⟨notice, position, size⟩ := remark
  obtain rfl : position = Text.byteLength (earlier.flatMap Lexeme.text) :=
    place.trans (Nat.zero_add _)
  obtain rfl : size = Text.byteLength lexeme.text := length
  rcases Lexeme.notice?_eq_some_iff.mp noticed with
    ⟨c, rfl, same⟩ | ⟨rfl, same⟩ | ⟨text, rfl, valueless, same⟩
  · obtain rfl : notice = .unexpectedCharacter c := same
    obtain ⟨after, whole, unexpected, outside⟩ :=
      Lexeme.exists_stray_iff.mp ⟨earlier, later, cut, rfl⟩
    rw [← inComment_concat_iff_of_unexpected unexpected] at outside
    exact .stray whole unexpected outside
  · obtain rfl : notice = .expectedLineFeed := same
    obtain ⟨after, whole, alone⟩ := Lexeme.exists_lone_iff.mp ⟨earlier, later, cut, rfl⟩
    exact .lone whole alone
  · obtain rfl : notice = .malformedInteger text := same
    let token : Token := ⟨.integer, text, Text.byteLength (earlier.flatMap Lexeme.text)⟩
    have number : token ∈ Lexeme.tokensFrom 0 (Lexeme.ofText source) :=
      Lexeme.mem_tokensFrom_iff.mpr ⟨earlier, later, cut, (Nat.zero_add _).symm⟩
    exact .malformed (numbers token number rfl) rfl valueless

/-- The remark on the last line is a finding. -/
theorem finding_of_mem_last {source : List Char} {tokens : List Token} {remark : Remark}
    (member : remark ∈ remarksAt (Text.byteLength source) 0
      (if isUnended source then some .expectedFinalNewline else none)) :
    Finding source tokens remark := by
  cases unended : isUnended source with
  | false => simp [unended, remarksAt] at member
  | true =>
    rw [if_pos unended] at member
    obtain rfl := List.mem_singleton.mp member
    obtain ⟨front, c, whole, feed, carriage⟩ := isUnended_iff.mp unended
    exact .unended whole feed carriage

/-- A finding is remarked on, for any tokens of which the numbers are among the lexemes. -/
theorem mem_scanRemarks_of_finding {source : List Char} {tokens : List Token}
    (numbers : ∀ token ∈ tokens, token.kind = .integer →
      token ∈ Lexeme.tokensFrom 0 (Lexeme.ofText source))
    {remark : Remark} (found : Finding source tokens remark) : remark ∈ scanRemarks source := by
  rw [scanRemarks, List.mem_append, Lexeme.mem_remarksFrom_iff]
  cases found with
  | stray whole unexpected outside =>
    rw [inComment_concat_iff_of_unexpected unexpected] at outside
    obtain ⟨earlier, later, cut, rfl⟩ :=
      Lexeme.exists_stray_iff.mpr ⟨_, whole, unexpected, outside⟩
    exact .inl ⟨earlier, _, later, cut, rfl, (Nat.zero_add _).symm, rfl⟩
  | lone whole alone =>
    obtain ⟨earlier, later, cut, rfl⟩ := Lexeme.exists_lone_iff.mpr ⟨_, whole, alone⟩
    exact .inl ⟨earlier, _, later, cut, rfl, (Nat.zero_add _).symm, rfl⟩
  | @malformed token member integer valueless =>
    obtain ⟨earlier, later, cut, place⟩ :=
      Lexeme.mem_tokensFrom_iff.mp (numbers token member integer)
    rw [integer] at cut
    have noticed : (Lexeme.token .integer token.text).notice? =
        some (.malformedInteger token.text) :=
      Lexeme.notice?_eq_some_iff.mpr (.inr (.inr ⟨_, rfl, valueless, rfl⟩))
    exact .inl ⟨earlier, _, later, cut, noticed, place, rfl⟩
  | unended whole feed carriage =>
    rw [if_pos (isUnended_iff.mpr ⟨_, _, whole, feed, carriage⟩)]
    exact .inr (List.mem_singleton_self _)

end Assembly8085
