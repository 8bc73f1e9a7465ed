import Mathlib.Computability.RegularExpressions
import Mathlib.Data.Bool.AllAny
import Mathlib.Data.Nat.Digits.Defs
import Assembly8085.Literal

/-!
# What literals mean

The nine shapes of literals are regular expressions, and no text matches two of them. So the shape
says where the digits of a literal are and in which base, and the value of a literal is that of its
digits as positions in that base. The markers at both ends, by which a literal is split, never tell
another shape than the one that the whole text has.
-/
namespace Assembly8085

/-- What holds of each ASCII character and of all others holds of every character. -/
theorem forall_char {motive : Char → Prop} (ascii : ∀ code : Fin 128, motive (Char.ofNat code))
    (others : ∀ c : Char, 128 ≤ c.toNat → motive c) (c : Char) : motive c := by
  by_cases small : c.toNat < 128
  · have found := ascii ⟨c.toNat, small⟩
    rwa [Char.ofNat_toNat] at found
  · exact others c (by omega)

namespace Numeral

/-- The number that a digit stands for, by its place among all digits; case does not matter. -/
def digitOf (c : Char) : Nat := "0123456789abcdef".toList.idxOf c.toLower

/-- The number that digits make up in a radix, the first one being the most significant. -/
def ofDigits (radix : Nat) (digits : List Char) : Nat :=
  Nat.ofDigits radix (digits.map digitOf).reverse

/-- Only ASCII characters are digits. -/
theorem digitValue?_eq_none_of_large {c : Char} (large : 128 ≤ c.toNat) :
    digitValue? c = none := by
  have bounds : '9'.toNat = 57 ∧ 'f'.toNat = 102 ∧ 'F'.toNat = 70 := by decide
  have order (first second : Char) : first ≤ second ↔ first.toNat ≤ second.toNat := Iff.rfl
  have decimal : c.isDigit = false := by
    rw [Bool.eq_false_iff]
    intro digit
    rw [Char.isDigit_iff_toNat] at digit
    omega
  rw [digitValue?, decimal, if_neg Bool.false_ne_true, if_neg, if_neg]
  · rw [order, order]
    omega
  · rw [order, order]
    omega

/-- A digit counts as the number that it stands for. -/
theorem digitOf_eq {c : Char} {digit : Nat} (counts : digitValue? c = some digit) :
    digitOf c = digit := by
  refine forall_char (motive := fun c => ∀ digit ∈ digitValue? c, digitOf c = digit)
    (by decide) ?_ c digit counts
  intro c large digit counts
  rw [digitValue?_eq_none_of_large large] at counts
  contradiction

/-- One more digit in front adds what it counts at its position. -/
theorem ofDigits_cons (radix : Nat) (c : Char) (rest : List Char) :
    ofDigits radix (c :: rest) = digitOf c * radix ^ rest.length + ofDigits radix rest := by
  rw [ofDigits, List.map_cons, List.reverse_cons, Nat.ofDigits_append, Nat.ofDigits_singleton,
    List.length_reverse, List.length_map, Nat.mul_comm, Nat.add_comm]
  rfl

/-- Digits of a radix that are read behind others make up a number together with them. -/
theorem foldlM_appendDigit? {radix : Nat} {digits : List Char}
    (all : ∀ c ∈ digits, ∃ digit < radix, digitValue? c = some digit) (total : Nat) :
    digits.foldlM (appendDigit? radix) total =
      some (total * radix ^ digits.length + ofDigits radix digits) := by
  induction digits generalizing total with
  | nil => simp [ofDigits]
  | cons c rest ih =>
    obtain ⟨digit, small, counts⟩ := all c (List.mem_cons_self ..)
    have step : appendDigit? radix total c = some (total * radix + digit) := by
      simp [appendDigit?, counts, small]
    rw [List.foldlM_cons, step]
    change rest.foldlM (appendDigit? radix) (total * radix + digit) = _
    rw [ih fun other member => all other (List.mem_cons_of_mem _ member), ofDigits_cons,
      digitOf_eq counts, List.length_cons, Nat.pow_succ]
    congr 1
    ring

/-- Digits of a radix have the number that they make up as their value, if there are any. -/
theorem value?_eq_some {radix : Nat} {digits : List Char} (held : digits ≠ [])
    (all : ∀ c ∈ digits, ∃ digit < radix, digitValue? c = some digit) :
    value? radix digits = some (ofDigits radix digits) := by
  rw [value?, List.isEmpty_eq_false_iff.mpr held, foldlM_appendDigit? all]
  simp

end Numeral

namespace Literal

/-- One of some characters. -/
def oneOf (chars : List Char) : RegularExpression Char :=
  (chars.map RegularExpression.char).sum

/-- One of some characters matches those, each by itself. -/
theorem mem_oneOf {chars text : List Char} :
    text ∈ (oneOf chars).matches' ↔ ∃ c ∈ chars, text = [c] := by
  induction chars with
  | nil =>
    exact iff_of_false (Language.notMem_zero text) fun ⟨_, member, _⟩ => List.not_mem_nil member
  | cons c others ih =>
    rw [oneOf] at ih ⊢
    rw [List.map_cons, List.sum_cons, RegularExpression.matches'_add, Language.mem_add, ih,
      RegularExpression.matches'_char, List.exists_mem_cons_iff]
    exact or_congr_left Set.mem_singleton_iff

/-- Any number of some characters matches the texts that consist of those. -/
theorem mem_star_oneOf {chars text : List Char} :
    text ∈ (oneOf chars).star.matches' ↔ ∀ c ∈ text, c ∈ chars := by
  rw [RegularExpression.matches'_star, Language.mem_kstar]
  constructor
  · rintro ⟨parts, rfl, each⟩ c member
    obtain ⟨part, there, inside⟩ := List.mem_flatten.mp member
    obtain ⟨found, known, rfl⟩ := mem_oneOf.mp (each part there)
    rwa [List.mem_singleton.mp inside]
  · intro each
    refine ⟨text.map fun c => [c], (List.flatMap_singleton' text).symm, fun part member => ?_⟩
    obtain ⟨c, there, rfl⟩ := List.mem_map.mp member
    exact mem_oneOf.mpr ⟨c, each c there, rfl⟩

namespace Base

/-- The digits of a base. -/
def digits : Base → List Char
  | .binary => "01".toList
  | .octal => "01234567".toList
  | .decimal => "0123456789".toList
  | .hexadecimal => "0123456789ABCDEFabcdef".toList

/-- The digits that a literal may start with if its base is named behind them, or not at all. -/
def firstDigits : Base → List Char
  | .hexadecimal => decimal.digits
  | base => base.digits

/-- The markers of a base behind a leading zero. -/
def leadingMarkers : Base → List Char
  | .binary => "bB".toList
  | .octal => "oO".toList
  | .decimal => "dD".toList
  | .hexadecimal => "xX".toList

/-- The markers of a base behind the digits. -/
def trailingMarkers : Base → List Char
  | .binary => "bB".toList
  | .octal => "oO".toList
  | .decimal => "dD".toList
  | .hexadecimal => "hH".toList

/-- Only ASCII characters are digits of a base. -/
theorem isDigit_eq_false_of_large (base : Base) {c : Char} (large : 128 ≤ c.toNat) :
    base.isDigit c = false := by
  rw [isDigit, Numeral.digitValue?_eq_none_of_large large]

/-- The digits of a base are listed. -/
theorem isDigit_iff_mem (base : Base) (c : Char) : base.isDigit c = true ↔ c ∈ base.digits := by
  refine forall_char (motive := fun c => base.isDigit c = true ↔ c ∈ base.digits)
    (by cases base <;> decide +kernel) ?_ c
  intro c large
  have ascii : ∀ c ∈ base.digits, c.toNat < 128 :=
    List.all_iff_forall_prop.mp (by cases base <;> decide)
  rw [base.isDigit_eq_false_of_large large]
  exact iff_of_false Bool.false_ne_true fun member => by
    have small := ascii c member
    omega

/-- The digits that a literal may start with are those that are decimal digits, too. -/
theorem mem_firstDigits_iff (base : Base) (c : Char) :
    c ∈ base.firstDigits ↔ c.isDigit = true ∧ base.isDigit c = true := by
  have same : base.firstDigits = base.digits.filter Char.isDigit := by cases base <;> decide
  rw [same, List.mem_filter, isDigit_iff_mem, and_comm]

/-- A base is named in front by its markers. -/
theorem ofLeading?_eq_some_iff {base : Base} {c : Char} :
    ofLeading? c = some base ↔ c ∈ base.leadingMarkers := by
  unfold ofLeading?
  split <;> cases base <;> simp_all [leadingMarkers]

/-- A base is named behind the digits by its markers. -/
theorem ofTrailing?_eq_some_iff {base : Base} {c : Char} :
    ofTrailing? c = some base ↔ c ∈ base.trailingMarkers := by
  unfold ofTrailing?
  split <;> cases base <;> simp_all [trailingMarkers]

/-- What may stand among the digits of a base. -/
theorem isDigitOrSeparator_iff_mem (base : Base) (c : Char) :
    base.isDigitOrSeparator c = true ↔ c ∈ '_' :: base.digits := by
  rw [isDigitOrSeparator, Bool.or_eq_true, isDigit_iff_mem, beq_iff_eq, List.mem_cons, or_comm]

end Base

/-- Digits of a base with separators, of which the first is a decimal digit. -/
def runPattern (base : Base) : RegularExpression Char :=
  oneOf base.firstDigits * (oneOf ('_' :: base.digits)).star

/-- The regular expression of a shape; it is about whole texts. -/
def Shape.pattern : Shape → RegularExpression Char
  | .unmarked => runPattern .decimal
  | .leading base =>
    .char '0' * oneOf base.leadingMarkers *
      (oneOf ('_' :: base.digits) * (oneOf ('_' :: base.digits)).star)
  | .trailing base => runPattern base * oneOf base.trailingMarkers

namespace Shape

/-- There are no other shapes than the nine. -/
theorem mem_all (shape : Shape) : shape ∈ all := by
  cases shape with
  | unmarked => decide
  | leading base => cases base <;> decide
  | trailing base => cases base <;> decide

/-- A literal has one of the shapes. -/
theorem isLiteral_iff_exists {text : List Char} :
    isLiteral text = true ↔ ∃ shape : Shape, shape.accepts text = true := by
  rw [isLiteral, List.any_eq_true]
  exact exists_congr fun shape => and_iff_right shape.mem_all

/-- A text that has a value has one of the shapes. -/
theorem exists_of_decode {value : UInt64} {text : List Char} (found : decode text = some value) :
    ∃ shape : Shape, shape.accepts text = true := by
  rw [← isLiteral_iff_exists]
  by_contra other
  rw [decode, if_neg other] at found
  contradiction

/-- Digits with separators start with a decimal digit of the base. -/
theorem isRun_iff {base : Base} {text : List Char} :
    isRun base text = true ↔
      ∃ first rest, text = first :: rest ∧ first ∈ base.firstDigits ∧
        ∀ c ∈ rest, c ∈ '_' :: base.digits := by
  cases text with
  | nil => simp [isRun]
  | cons first rest =>
    simp only [isRun, Bool.and_eq_true, List.all_eq_true, ← base.mem_firstDigits_iff,
      base.isDigitOrSeparator_iff_mem]
    constructor
    · exact fun run => ⟨first, rest, rfl, run⟩
    · rintro ⟨_, _, same, run⟩
      obtain ⟨rfl, rfl⟩ := List.cons.inj same
      exact run

/-- Digits that start with a decimal digit are what the regular expression for them matches. -/
theorem mem_runPattern_iff {base : Base} {text : List Char} :
    text ∈ (runPattern base).matches' ↔ isRun base text = true := by
  rw [runPattern, RegularExpression.matches'_mul, Language.mem_mul, isRun_iff]
  constructor
  · rintro ⟨_, first, rest, others, rfl⟩
    obtain ⟨c, member, rfl⟩ := mem_oneOf.mp first
    exact ⟨c, rest, rfl, member, mem_star_oneOf.mp others⟩
  · rintro ⟨c, rest, rfl, member, others⟩
    exact ⟨[c], mem_oneOf.mpr ⟨c, member, rfl⟩, rest, mem_star_oneOf.mpr others, rfl⟩

/-- A text ends in a marker if its last character is one. -/
theorem accepts_trailing_iff {base : Base} {text : List Char} :
    (trailing base).accepts text = true ↔
      ∃ digits marker, text = digits ++ [marker] ∧ marker ∈ base.trailingMarkers ∧
        isRun base digits = true := by
  rw [accepts, Bool.and_eq_true, beq_iff_eq]
  constructor
  · rintro ⟨named, run⟩
    obtain ⟨marker, last, names⟩ := Option.bind_eq_some_iff.mp named
    obtain ⟨digits, rfl⟩ := List.getLast?_eq_some_iff.mp last
    rw [List.dropLast_concat] at run
    exact ⟨digits, marker, rfl, Base.ofTrailing?_eq_some_iff.mp names, run⟩
  · rintro ⟨digits, marker, rfl, named, run⟩
    rw [List.dropLast_concat, List.getLast?_concat]
    exact ⟨Base.ofTrailing?_eq_some_iff.mpr named, run⟩

/-- A text starts with a marker if it is a zero, the marker and something among the digits. -/
theorem accepts_leading_iff {base : Base} {text : List Char} :
    (leading base).accepts text = true ↔
      ∃ marker digits, text = '0' :: marker :: digits ∧ marker ∈ base.leadingMarkers ∧
        digits ≠ [] ∧ ∀ c ∈ digits, c ∈ '_' :: base.digits := by
  constructor
  · intro accepted
    unfold accepts at accepted
    split at accepted
    all_goals try contradiction
    rename_i base' marker digits same
    cases same
    simp only [Bool.and_eq_true, beq_iff_eq, Bool.not_eq_true', List.isEmpty_eq_false_iff,
      List.all_eq_true, base.isDigitOrSeparator_iff_mem] at accepted
    obtain ⟨⟨named, held⟩, among⟩ := accepted
    exact ⟨marker, digits, rfl, Base.ofLeading?_eq_some_iff.mp named, held, among⟩
  · rintro ⟨marker, digits, rfl, named, held, among⟩
    simp only [accepts, Bool.and_eq_true, beq_iff_eq, Bool.not_eq_true',
      List.isEmpty_eq_false_iff, List.all_eq_true, base.isDigitOrSeparator_iff_mem]
    exact ⟨⟨Base.ofLeading?_eq_some_iff.mpr named, held⟩, among⟩

/-- A text has a shape if the regular expression of the shape matches it. -/
theorem mem_pattern_iff {shape : Shape} {text : List Char} :
    text ∈ shape.pattern.matches' ↔ shape.accepts text = true := by
  cases shape with
  | unmarked => exact mem_runPattern_iff
  | leading base =>
    rw [accepts_leading_iff, pattern, RegularExpression.matches'_mul,
      RegularExpression.matches'_mul, RegularExpression.matches'_mul, Language.mem_mul]
    constructor
    · rintro ⟨_, front, _, back, rfl⟩
      obtain ⟨_, rfl, _, named, rfl⟩ := Language.mem_mul.mp front
      obtain ⟨marker, member, rfl⟩ := mem_oneOf.mp named
      obtain ⟨_, first, rest, others, rfl⟩ := Language.mem_mul.mp back
      obtain ⟨c, inside, rfl⟩ := mem_oneOf.mp first
      rw [mem_star_oneOf] at others
      exact ⟨marker, c :: rest, rfl, member, List.cons_ne_nil c rest,
        List.forall_mem_cons.mpr ⟨inside, others⟩⟩
    · rintro ⟨marker, digits, rfl, named, held, among⟩
      obtain ⟨c, rest, rfl⟩ := List.exists_cons_of_ne_nil held
      obtain ⟨inside, others⟩ := List.forall_mem_cons.mp among
      refine ⟨['0', marker], Language.mem_mul.mpr ⟨['0'], rfl, [marker],
        mem_oneOf.mpr ⟨marker, named, rfl⟩, rfl⟩, c :: rest, Language.mem_mul.mpr ⟨[c],
        mem_oneOf.mpr ⟨c, inside, rfl⟩, rest, mem_star_oneOf.mpr others, rfl⟩, rfl⟩
  | trailing base =>
    rw [accepts_trailing_iff, pattern, RegularExpression.matches'_mul, Language.mem_mul]
    constructor
    · rintro ⟨digits, run, _, named, rfl⟩
      obtain ⟨marker, member, rfl⟩ := mem_oneOf.mp named
      exact ⟨digits, marker, rfl, member, mem_runPattern_iff.mp run⟩
    · rintro ⟨digits, marker, rfl, named, run⟩
      exact ⟨digits, mem_runPattern_iff.mpr run, [marker], mem_oneOf.mpr ⟨marker, named, rfl⟩, rfl⟩

/-- What an accepted text has for digits are digits of the base of the shape and separators. -/
theorem mem_digits_of_accepts {shape : Shape} {text : List Char}
    (accepted : shape.accepts text = true) :
    ∀ c ∈ shape.digits text, c ∈ '_' :: shape.base.digits := by
  have run {base : Base} {digits : List Char} (run : isRun base digits = true) :
      ∀ c ∈ digits, c ∈ '_' :: base.digits := by
    obtain ⟨first, rest, rfl, decimal, others⟩ := isRun_iff.mp run
    have digit := (base.isDigit_iff_mem first).mp ((base.mem_firstDigits_iff first).mp decimal).2
    exact List.forall_mem_cons.mpr ⟨List.mem_cons_of_mem _ digit, others⟩
  cases shape with
  | unmarked => exact run accepted
  | leading base =>
    obtain ⟨marker, digits, rfl, _, _, among⟩ := accepts_leading_iff.mp accepted
    exact among
  | trailing base =>
    obtain ⟨digits, marker, rfl, _, held⟩ := accepts_trailing_iff.mp accepted
    rw [Shape.digits, List.dropLast_concat]
    exact run held

/-- Only behind a marker in front can there be separators alone. -/
theorem exists_leading_of_accepts {shape : Shape} {text : List Char}
    (accepted : shape.accepts text = true) (separators : ∀ c ∈ shape.digits text, c = '_') :
    ∃ base, shape = .leading base := by
  have run {base : Base} {digits : List Char} (run : isRun base digits = true) :
      ∃ c ∈ digits, c ≠ '_' := by
    obtain ⟨first, rest, rfl, decimal, _⟩ := isRun_iff.mp run
    refine ⟨first, List.mem_cons_self .., ?_⟩
    rintro rfl
    exact absurd ((base.mem_firstDigits_iff '_').mp decimal).1 (by decide)
  cases shape with
  | unmarked =>
    obtain ⟨c, member, digit⟩ := run accepted
    exact absurd (separators c member) digit
  | leading base => exact ⟨base, rfl⟩
  | trailing base =>
    obtain ⟨digits, marker, rfl, _, held⟩ := accepts_trailing_iff.mp accepted
    obtain ⟨c, member, digit⟩ := run held
    rw [Shape.digits, List.dropLast_concat] at separators
    exact absurd (separators c member) digit

/-- How many characters are there for the base alone. -/
def marks : Shape → Nat
  | .unmarked => 0
  | .leading _ => 2
  | .trailing _ => 1

/-- An accepted text is its digits and its marks. -/
theorem length_digits_of_accepts {shape : Shape} {text : List Char}
    (accepted : shape.accepts text = true) :
    (shape.digits text).length + shape.marks = text.length := by
  cases shape with
  | unmarked => rfl
  | leading base =>
    obtain ⟨marker, digits, rfl, _⟩ := accepts_leading_iff.mp accepted
    rfl
  | trailing base =>
    obtain ⟨digits, marker, rfl, _⟩ := accepts_trailing_iff.mp accepted
    simp [Shape.digits, marks]

/-- The base and the number of marks make the shape. -/
theorem eq_of_base_of_marks {first second : Shape} (base : first.base = second.base)
    (marks : first.marks = second.marks) : first = second := by
  cases first <;> cases second <;> simp_all [Shape.base, Shape.marks]

end Shape

/-- What stands among digits names no base in front that would win, and none at all unless the
digits are hexadecimal. -/
theorem Base.not_marker {base : Base} {c : Char} (among : c ∈ '_' :: base.digits) :
    ofLeading? c ≠ some .hexadecimal ∧
      (base ≠ .hexadecimal → ofLeading? c = none ∧ ofTrailing? c = none) := by
  have each : ∀ c ∈ '_' :: base.digits, ofLeading? c ≠ some .hexadecimal ∧
      (base ≠ .hexadecimal → ofLeading? c = none ∧ ofTrailing? c = none) :=
    List.all_iff_forall_prop.mp (by cases base <;> decide)
  exact each c among

/-- A text names a base in front if it is a zero, a marker of the base and anything. -/
theorem leadingBase?_eq_some_iff {text : List Char} {base : Base} :
    leadingBase? text = some base ↔
      ∃ marker c rest, text = '0' :: marker :: c :: rest ∧ Base.ofLeading? marker = some base := by
  constructor
  · intro named
    unfold leadingBase? at named
    split at named
    · rename_i marker c rest
      exact ⟨marker, c, rest, rfl, named⟩
    · contradiction
  · rintro ⟨marker, c, rest, rfl, named⟩
    exact named

/-- The markers at both ends split a literal in the way of its shape. -/
theorem split_of_accepts {shape : Shape} {text : List Char} (accepted : shape.accepts text = true) :
    split text = (shape.base, shape.digits text) := by
  have among := shape.mem_digits_of_accepts accepted
  cases shape with
  | unmarked =>
    have plain (c : Char) (member : c ∈ text) := (Base.not_marker (among c member)).2 (by decide)
    have leading : leadingBase? text = none := by
      rw [Option.eq_none_iff_forall_not_mem]
      intro base named
      obtain ⟨marker, c, rest, rfl, names⟩ := leadingBase?_eq_some_iff.mp named
      rw [(plain marker (by simp)).1] at names
      contradiction
    have trailing : trailingBase? text = none := by
      rw [trailingBase?, Option.bind_eq_none_iff]
      exact fun c last => (plain c (List.mem_of_getLast? last)).2
    rw [split, leading, trailing]
    rfl
  | leading base =>
    obtain ⟨marker, digits, rfl, named, held, _⟩ := Shape.accepts_leading_iff.mp accepted
    obtain ⟨c, rest, rfl⟩ := List.exists_cons_of_ne_nil held
    have leading : leadingBase? ('0' :: marker :: c :: rest) = some base :=
      Base.ofLeading?_eq_some_iff.mpr named
    by_cases wins : base = .hexadecimal
    · subst wins
      rw [split, leading]
      rfl
    · have trailing : trailingBase? ('0' :: marker :: c :: rest) = none := by
        rw [trailingBase?, List.getLast?_cons_cons, List.getLast?_cons_cons,
          Option.bind_eq_none_iff]
        exact fun last same =>
          ((Base.not_marker (among last (List.mem_of_getLast? same))).2 wins).2
      rw [split, leading, trailing]
      cases base with
      | hexadecimal => exact absurd rfl wins
      | _ => rfl
  | trailing base =>
    obtain ⟨digits, marker, rfl, named, run⟩ := Shape.accepts_trailing_iff.mp accepted
    rw [Shape.digits, List.dropLast_concat] at among
    have leading : leadingBase? (digits ++ [marker]) ≠ some .hexadecimal := by
      intro wrong
      obtain ⟨second, c, rest, same, names⟩ := leadingBase?_eq_some_iff.mp wrong
      -- Something follows the second character, so that one is not the marker.
      have inside : second ∈ digits := by
        cases digits with
        | nil => simp at same
        | cons first behind =>
          cases behind with
          | nil => simp at same
          | cons next more =>
            obtain ⟨_, rfl, _⟩ := by simpa using same
            simp
      exact (Base.not_marker (among second inside)).1 names
    have trailing : trailingBase? (digits ++ [marker]) = some base := by
      rw [trailingBase?, List.getLast?_concat]
      exact Base.ofTrailing?_eq_some_iff.mpr named
    rw [split, trailing]
    split
    · rename_i hexadecimal
      exact absurd hexadecimal leading
    · rename_i other same _
      obtain rfl := Option.some.inj same
      rfl
    · contradiction
    · contradiction

namespace Shape

/-- No text has two shapes: its split says what its base is and how many marks it has. -/
theorem eq_of_accepts {first second : Shape} {text : List Char}
    (one : first.accepts text = true) (other : second.accepts text = true) : first = second := by
  have same := (split_of_accepts one).symm.trans (split_of_accepts other)
  obtain ⟨base, digits⟩ := Prod.mk.inj same
  refine eq_of_base_of_marks base ?_
  have before := length_digits_of_accepts one
  have after := length_digits_of_accepts other
  rw [digits] at before
  omega

/-- Both ends look like a marker here, but only one of the nine shapes is there. -/
example : all.filter (·.accepts "0d_h".toList) = [.trailing .hexadecimal] := by decide

/-- The number that a text of the shape is written for: what its digits make up in the radix,
separators left out. -/
def value (shape : Shape) (text : List Char) : Nat :=
  Numeral.ofDigits shape.base.radix ((shape.digits text).filter (· != '_'))

/-- The digits of an accepted text have a value unless they are separators alone. -/
theorem value?_of_accepts {shape : Shape} {text : List Char}
    (accepted : shape.accepts text = true) (digit : ∃ c ∈ shape.digits text, c ≠ '_') :
    Numeral.value? shape.base.radix ((shape.digits text).filter (· != '_')) =
      some (shape.value text) := by
  obtain ⟨c, member, digit⟩ := digit
  refine Numeral.value?_eq_some (List.ne_nil_of_mem (a := c) (by simp [member, digit])) ?_
  intro other inside
  obtain ⟨there, digit⟩ := by simpa using List.mem_filter.mp inside
  have counts := (List.mem_cons.mp (mem_digits_of_accepts accepted other there)).resolve_left digit
  rw [← Base.isDigit_iff_mem, Base.isDigit] at counts
  split at counts
  · rename_i found value
    exact ⟨found, of_decide_eq_true counts, value⟩
  · contradiction

/-- A literal decodes to the number that it is written for, if it has a digit and 64 bits are
enough for the number. -/
theorem decode_eq_some_iff_of_accepts {shape : Shape} {text : List Char}
    (accepted : shape.accepts text = true) (value : UInt64) :
    decode text = some value ↔
      (∃ c ∈ shape.digits text, c ≠ '_') ∧ value.toNat = shape.value text := by
  have literal : isLiteral text = true := isLiteral_iff_exists.mpr ⟨shape, accepted⟩
  rw [decode, if_pos literal, split_of_accepts accepted]
  by_cases digit : ∃ c ∈ shape.digits text, c ≠ '_'
  · simp only [value?_of_accepts accepted digit, digit, true_and]
    split
    · rename_i small
      rw [Option.some.injEq, ← UInt64.toNat_inj, UInt64.toNat_ofNat_of_lt' small]
      exact eq_comm
    · rename_i large
      refine iff_of_false (by simp) fun same => large ?_
      rw [← same]
      exact value.toNat_lt
  · have none_left : (shape.digits text).filter (· != '_') = [] := by
      simpa using digit
    simp [none_left, Numeral.value?, digit]

/-- A literal decodes to nothing if it has separators for digits or 64 bits are not enough. -/
theorem decode_eq_none_iff_of_accepts {shape : Shape} {text : List Char}
    (accepted : shape.accepts text = true) :
    decode text = none ↔
      (∀ c ∈ shape.digits text, c = '_') ∨ 2 ^ 64 ≤ shape.value text := by
  constructor
  · intro nothing
    by_contra! both
    obtain ⟨digit, small⟩ := both
    have found := (decode_eq_some_iff_of_accepts accepted (UInt64.ofNat (shape.value text))).mpr
      ⟨digit, UInt64.toNat_ofNat_of_lt' small⟩
    rw [nothing] at found
    contradiction
  · intro either
    rw [Option.eq_none_iff_forall_not_mem]
    intro value found
    obtain ⟨⟨c, member, digit⟩, same⟩ := (decode_eq_some_iff_of_accepts accepted value).mp found
    rcases either with separators | large
    · exact digit (separators c member)
    · have small := value.toNat_lt
      omega

end Shape

/-- **Literals mean what their grammar says.** Of the nine shapes, no text has two, and the texts
that have one are the literals. A text has a value exactly if it has a shape, there is another
character than the separator among the digits of that shape, and the number that those make up in
the radix of the shape, separators left out, takes 64 bits at most; that number is the value. What
else stands among the digits of a shape are always digits of its base, so a literal is without a
value only if all of its digits are separators, which needs a marker in front of them, or if its
number takes more than 64 bits. -/
theorem decode_eq_meaning (text : List Char) :
    (∀ first second : Shape, text ∈ first.pattern.matches' → text ∈ second.pattern.matches' →
      first = second) ∧
    (isLiteral text = true ↔ ∃ shape ∈ Shape.all, text ∈ shape.pattern.matches') ∧
    (∀ value : UInt64, decode text = some value ↔
      ∃ shape : Shape, text ∈ shape.pattern.matches' ∧ (∃ c ∈ shape.digits text, c ≠ '_') ∧
        value.toNat = shape.value text) ∧
    ∀ shape : Shape, text ∈ shape.pattern.matches' →
      (∀ c ∈ shape.digits text, c = '_' ∨ c ∈ shape.base.digits) ∧
      (decode text = none ↔
        ((∃ base, shape = .leading base) ∧ ∀ c ∈ shape.digits text, c = '_') ∨
          2 ^ 64 ≤ shape.value text) := by
  simp only [Shape.mem_pattern_iff]
  refine ⟨fun first second => Shape.eq_of_accepts, ?_, fun value => ?_, fun shape accepted => ?_⟩
  · rw [Shape.isLiteral_iff_exists]
    exact exists_congr fun shape => (and_iff_right shape.mem_all).symm
  · constructor
    · intro found
      obtain ⟨shape, accepted⟩ := Shape.exists_of_decode found
      exact ⟨shape, accepted, (Shape.decode_eq_some_iff_of_accepts accepted value).mp found⟩
    · rintro ⟨shape, accepted, means⟩
      exact (Shape.decode_eq_some_iff_of_accepts accepted value).mpr means
  · refine ⟨fun c member => List.mem_cons.mp (shape.mem_digits_of_accepts accepted c member), ?_⟩
    rw [Shape.decode_eq_none_iff_of_accepts accepted]
    exact or_congr_left ⟨fun all => ⟨shape.exists_leading_of_accepts accepted all, all⟩, And.right⟩

end Literal

end Assembly8085
