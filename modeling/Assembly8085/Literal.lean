import Assembly8085.Numeral

/-!
# Integer literals

An integer is written in binary, octal, decimal or hexadecimal. The base is named by a marker
behind a leading zero (`0b1010`), by a marker behind the digits (`1010b`), or not at all, which
means decimal. A separator `_` may stand between the digits. The nine shapes say which texts
are literals; the markers at both ends say how a literal is read.
-/
namespace Assembly8085.Literal

/-- The base that the digits of a literal are written in. -/
inductive Base
  /-- Base two. -/
  | binary
  /-- Base eight. -/
  | octal
  /-- Base ten. -/
  | decimal
  /-- Base sixteen. -/
  | hexadecimal
  deriving DecidableEq

namespace Base

/-- The number of different digits. -/
def radix : Base → Nat
  | .binary => 2
  | .octal => 8
  | .decimal => 10
  | .hexadecimal => 16

/-- The base that a marker behind a leading zero names. -/
def ofLeading? : Char → Option Base
  | 'b' | 'B' => some .binary
  | 'o' | 'O' => some .octal
  | 'd' | 'D' => some .decimal
  | 'x' | 'X' => some .hexadecimal
  | _ => none

/-- The base that a marker behind the digits names. -/
def ofTrailing? : Char → Option Base
  | 'b' | 'B' => some .binary
  | 'o' | 'O' => some .octal
  | 'd' | 'D' => some .decimal
  | 'h' | 'H' => some .hexadecimal
  | _ => none

/-- Whether a character is a digit of the base. -/
def isDigit (base : Base) (c : Char) : Bool :=
  match Numeral.digitValue? c with
  | some digit => decide (digit < base.radix)
  | none => false

/-- Whether a character may stand among the digits: a digit of the base or a separator. -/
def isDigitOrSeparator (base : Base) (c : Char) : Bool :=
  base.isDigit c || c == '_'

end Base

/-- A way to write an integer. -/
inductive Shape
  /-- Decimal digits alone. -/
  | unmarked
  /-- A zero, a marker and the digits. -/
  | leading (base : Base)
  /-- The digits and a marker. The first digit is a decimal one in every base. -/
  | trailing (base : Base)
  deriving DecidableEq

namespace Shape

/-- The nine shapes. -/
def all : List Shape :=
  [.unmarked, .leading .binary, .leading .octal, .leading .decimal, .leading .hexadecimal,
    .trailing .binary, .trailing .octal, .trailing .decimal, .trailing .hexadecimal]

/-- The base of the digits. -/
def base : Shape → Base
  | .unmarked => .decimal
  | .leading base => base
  | .trailing base => base

/-- Digits that start with a decimal digit. -/
def isRun (base : Base) : List Char → Bool
  | [] => false
  | first :: rest => first.isDigit && base.isDigit first && rest.all base.isDigitOrSeparator

/-- Whether a text has the shape. -/
def accepts : Shape → List Char → Bool
  | .unmarked, text => isRun .decimal text
  | .leading base, '0' :: marker :: digits =>
    Base.ofLeading? marker == some base && !digits.isEmpty &&
      digits.all base.isDigitOrSeparator
  | .leading _, _ => false
  | .trailing base, text =>
    text.getLast?.bind Base.ofTrailing? == some base && isRun base text.dropLast

/-- The part of a text of the shape that holds its digits. -/
def digits : Shape → List Char → List Char
  | .unmarked, text => text
  | .leading _, text => text.drop 2
  | .trailing _, text => text.dropLast

end Shape

/-- Whether a text has the shape of an integer literal. -/
def isLiteral (text : List Char) : Bool :=
  Shape.all.any (·.accepts text)

/-- The base named behind a leading zero, provided that anything follows the marker. -/
def leadingBase? : List Char → Option Base
  | '0' :: marker :: _ :: _ => Base.ofLeading? marker
  | _ => none

/-- The base named by the last character. -/
def trailingBase? (text : List Char) : Option Base :=
  text.getLast?.bind Base.ofTrailing?

/-- The base and the digits of a literal. Where both ends look like a marker, the one in front
counts if it is that of hexadecimal, since no other base has it among its digits, and the one
at the end counts otherwise. -/
def split (text : List Char) : Base × List Char :=
  match leadingBase? text, trailingBase? text with
  | some .hexadecimal, _ => (.hexadecimal, text.drop 2)
  | _, some base => (base, text.dropLast)
  | some base, none => (base, text.drop 2)
  | none, none => (.decimal, text)

/-- The value of a literal. A text that is none has no value, and neither has one whose digits
are all separators or whose value takes more than 64 bits. -/
def decode (text : List Char) : Option UInt64 :=
  if isLiteral text then
    let (base, digits) := split text
    match Numeral.value? base.radix (digits.filter (· != '_')) with
    | some value => if value < UInt64.size then some (UInt64.ofNat value) else none
    | none => none
  else none

/-- The text of a value: hexadecimal digits with the marker behind them, and a zero in front
where the first digit is a letter. -/
def render (value : UInt64) : List Char :=
  let digits := Numeral.hex value.toNat
  (if digits.head?.any Char.isDigit then digits else '0' :: digits) ++ ['h']

example : decode "0xb".toList = some 11 := by decide
example : decode "0bh".toList = some 11 := by decide
example : decode "0b".toList = some 0 := by decide
example : decode "0b_".toList = none := by decide
example : decode "0xffffffffffffffff".toList = some 0xffffffffffffffff := by decide
example : decode "0x1_0000_0000_0000_0000".toList = none := by decide
example : isLiteral "0xbh".toList = false := by decide
example : render 0xff = "0ffh".toList := by decide

end Assembly8085.Literal
