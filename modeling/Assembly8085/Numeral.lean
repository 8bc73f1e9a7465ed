/-!
# Numerals

The value of a run of digits in a radix, and the digits of a value. Digits above nine are the
letters `a` to `f` in either case.
-/
namespace Assembly8085.Numeral

/-- What a character counts as a digit; letters stand for ten and up. -/
def digitValue? (c : Char) : Option Nat :=
  if c.isDigit then some (c.toNat - '0'.toNat)
  else if 'a' ≤ c ∧ c ≤ 'f' then some (c.toNat - 'a'.toNat + 10)
  else if 'A' ≤ c ∧ c ≤ 'F' then some (c.toNat - 'A'.toNat + 10)
  else none

/-- One more digit on the right of a numeral, refused when it is none of the radix. -/
def appendDigit? (radix total : Nat) (c : Char) : Option Nat :=
  match digitValue? c with
  | some digit => if digit < radix then some (total * radix + digit) else none
  | none => none

/-- The value of a numeral, most significant digit first; a run without digits has none. -/
def value? (radix : Nat) (digits : List Char) : Option Nat :=
  if digits.isEmpty then none else digits.foldlM (appendDigit? radix) 0

/-- The hexadecimal digits of a number with small letters and without leading zeros. -/
def hex (number : Nat) : List Char := Nat.toDigits 16 number

/-- The hexadecimal digits of a number with capital letters, padded with zeros on the left. -/
def hexUpper (width number : Nat) : List Char :=
  let digits := (hex number).map Char.toUpper
  List.replicate (width - digits.length) '0' ++ digits

example : value? 16 "fF".toList = some 255 := by decide
example : value? 2 "12".toList = none := by decide
example : value? 10 [] = none := by decide
example : hex 0xb1 = "b1".toList := by decide
example : hexUpper 4 0xb1 = "00B1".toList := by decide

end Assembly8085.Numeral
