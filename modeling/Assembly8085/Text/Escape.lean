import Assembly8085.Numeral
import Assembly8085.Text.Printable

/-!
# Characters written as escapes

Two written forms of a text. The plain form keeps to printable ASCII, so that a message about a
stray character can be read anywhere. The quoted form stands between double quotes and keeps
every character that shows itself.
-/
namespace Assembly8085.Text

/-- A character as its code point in hexadecimal. -/
def codePoint (c : Char) : List Char :=
  ['\\', 'u', '\x7b'] ++ Numeral.hex c.toNat ++ ['\x7d']

/-- A character in the plain form. -/
def escapeChar (c : Char) : List Char :=
  if c = '\t' then ['\\', 't']
  else if c = '\r' then ['\\', 'r']
  else if c = '\n' then ['\\', 'n']
  else if c = '\x27' ∨ c = '\x22' ∨ c = '\\' then ['\\', c]
  else if ' ' ≤ c ∧ c ≤ '~' then [c]
  else codePoint c

/-- The plain form of a text. -/
def escape (text : List Char) : List Char :=
  text.flatMap escapeChar

/-- A character in the quoted form. -/
def quoteChar (c : Char) : List Char :=
  if c = '\x00' then ['\\', '0']
  else if c = '\t' then ['\\', 't']
  else if c = '\r' then ['\\', 'r']
  else if c = '\n' then ['\\', 'n']
  else if c = '\x22' ∨ c = '\\' then ['\\', c]
  else if isPrintable c then [c]
  else codePoint c

/-- The quoted form of a text. -/
def quote (text : List Char) : List Char :=
  '\x22' :: text.flatMap quoteChar ++ ['\x22']

example : escape "a'é\t".toList = "a\\'\\u\x7be9\x7d\\t".toList := by decide
example : quote "a'\n".toList = "\"a'\\n\"".toList := by decide +kernel
example : quoteChar 'é' = ['é'] := by decide +kernel
example : quoteChar '\u0301' = codePoint '\u0301' := by decide +kernel
example : quoteChar '\u115f' = codePoint '\u115f' := by decide +kernel
example : quoteChar '\uff9e' = ['\uff9e'] := by decide +kernel

end Assembly8085.Text
