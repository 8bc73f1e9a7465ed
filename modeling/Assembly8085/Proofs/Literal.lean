import Assembly8085.Literal

/-!
# Digits of numbers

The digits of a number in a radix add up to the number. In hexadecimal they are what a value is
rendered with, behind a zero where the first one is a letter.
-/
namespace Assembly8085

namespace Numeral

/-- A digit counts as what it stands for. -/
theorem digitValue?_digitChar {digit : Nat} (small : digit < 16) :
    digitValue? digit.digitChar = some digit := by
  have each : ∀ digit : Fin 16, digitValue? digit.val.digitChar = some digit.val := by decide
  exact each ⟨digit, small⟩

variable {radix : Nat}

/-- One more digit makes as many of each before as the radix says, and itself. -/
theorem appendDigit?_digitChar (few : radix ≤ 16) {digit : Nat} (small : digit < radix)
    (total : Nat) : appendDigit? radix total digit.digitChar = some (total * radix + digit) := by
  simp [appendDigit?, digitValue?_digitChar (Nat.lt_of_lt_of_le small few), small]

/-- The digits of a number in a radix add up to the number. -/
theorem foldlM_toDigits (more : 1 < radix) (few : radix ≤ 16) (number : Nat) :
    (Nat.toDigits radix number).foldlM (appendDigit? radix) 0 = some number := by
  induction number using Nat.strongRecOn with
  | ind number ih =>
    rw [Nat.toDigits_eq_if more]
    split
    · rename_i small
      simp [appendDigit?_digitChar few small]
    · rename_i large
      have positive : 0 < number := by omega
      have quotient := ih (number / radix) (Nat.div_lt_self positive more)
      have last := Nat.mod_lt number (Nat.zero_lt_of_lt more)
      have whole : number / radix * radix + number % radix = number := Nat.div_add_mod' ..
      simp [List.foldlM_append, quotient, appendDigit?_digitChar few last, whole]

/-- Each digit of a number in a radix is below it. -/
theorem exists_digitChar_of_mem_toDigits (more : 1 < radix) {number : Nat} {c : Char}
    (member : c ∈ Nat.toDigits radix number) : ∃ digit < radix, c = digit.digitChar := by
  induction number using Nat.strongRecOn with
  | ind number ih =>
    rw [Nat.toDigits_eq_if more] at member
    split at member
    · rename_i small
      exact ⟨number, small, List.mem_singleton.mp member⟩
    · rename_i large
      have positive : 0 < number := by omega
      rcases List.mem_append.mp member with before | last
      · exact ih (number / radix) (Nat.div_lt_self positive more) before
      · exact ⟨number % radix, Nat.mod_lt number (Nat.zero_lt_of_lt more),
          List.mem_singleton.mp last⟩

/-- Each digit of a number in hexadecimal is one of sixteen. -/
theorem exists_digitChar_of_mem_hex {number : Nat} {c : Char} (member : c ∈ hex number) :
    ∃ digit < 16, c = digit.digitChar :=
  exists_digitChar_of_mem_toDigits (by decide) member

/-- A number has a digit at least. -/
theorem hex_ne_nil (number : Nat) : hex number ≠ [] := Nat.toDigits_ne_nil

end Numeral

namespace Literal

/-- A digit is no separator, and no capital letter. -/
theorem digitChar_facts {digit : Nat} (small : digit < 16) :
    digit.digitChar ≠ '_' ∧ digit.digitChar.toLower = digit.digitChar := by
  have each : ∀ digit : Fin 16, digit.val.digitChar ≠ '_' ∧
      digit.val.digitChar.toLower = digit.val.digitChar := by decide
  exact each ⟨digit, small⟩

/-- The digits of a value as they are rendered: the first one is a decimal digit. -/
def renderDigits (value : UInt64) : List Char :=
  let digits := Numeral.hex value.toNat
  if digits.head?.any Char.isDigit then digits else '0' :: digits

/-- A value is rendered as its digits and the marker of hexadecimal. -/
theorem render_eq (value : UInt64) : render value = renderDigits value ++ ['h'] := rfl

/-- Each rendered digit is one of sixteen. -/
theorem exists_digitChar_of_mem_renderDigits {value : UInt64} {c : Char}
    (member : c ∈ renderDigits value) : ∃ digit < 16, c = digit.digitChar := by
  rw [renderDigits] at member
  split at member
  · exact Numeral.exists_digitChar_of_mem_hex member
  · rcases List.mem_cons.mp member with rfl | behind
    · exact ⟨0, by decide, by decide⟩
    · exact Numeral.exists_digitChar_of_mem_hex behind

/-- The rendered digits start with a decimal digit. -/
theorem exists_renderDigits_eq_cons (value : UInt64) :
    ∃ first rest, renderDigits value = first :: rest ∧ first.isDigit = true := by
  rw [renderDigits]
  obtain ⟨first, rest, digits⟩ := List.exists_cons_of_ne_nil (Numeral.hex_ne_nil value.toNat)
  simp only [digits, List.head?_cons, Option.any_some]
  split
  · rename_i decimal
    exact ⟨first, rest, rfl, decimal⟩
  · exact ⟨'0', first :: rest, rfl, by decide⟩

end Literal

end Assembly8085
