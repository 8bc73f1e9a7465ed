import Mathlib.Tactic.SplitIfs

/-!
# Letters by their codes

ASCII letters are two ranges of codes, with the small form of each letter 32 codes behind the
capital. So characters have the same capital exactly if they differ at most in case, and what is in
neither range is no letter and stays as it is.
-/
namespace Assembly8085

variable {c d : Char}

/-- Capital letters by their codes. -/
theorem isUpper_iff_toNat : c.isUpper = true ↔ 65 ≤ c.toNat ∧ c.toNat ≤ 90 :=
  decide_eq_true_iff

/-- Small letters are a range of characters. -/
theorem isLower_iff : c.isLower = true ↔ 'a'.val ≤ c.val ∧ c.val ≤ 'z'.val :=
  Bool.and_eq_true_iff.trans (and_congr decide_eq_true_iff decide_eq_true_iff)

/-- Small letters by their codes. -/
theorem isLower_iff_toNat : c.isLower = true ↔ 97 ≤ c.toNat ∧ c.toNat ≤ 122 :=
  isLower_iff

/-- Letters by their codes. -/
theorem isAlpha_iff_toNat :
    c.isAlpha = true ↔ (65 ≤ c.toNat ∧ c.toNat ≤ 90) ∨ (97 ≤ c.toNat ∧ c.toNat ≤ 122) :=
  Bool.or_eq_true_iff.trans (or_congr isUpper_iff_toNat isLower_iff_toNat)

/-- The capital of a small letter is 32 codes in front of it; all else is its own capital. -/
theorem toNat_toUpper (c : Char) :
    c.toUpper.toNat = if c.isLower then c.toNat - 32 else c.toNat := by
  split_ifs with small
  · -- The distance is added as the word that wraps around to 32 less.
    have wraps : ('A'.val - 'a'.val).toNat = 2 ^ 32 - 32 := rfl
    have capital : c.toUpper = ⟨c.val + ('A'.val - 'a'.val), _⟩ := dif_pos (isLower_iff.mp small)
    have bounds := isLower_iff_toNat.mp small
    rw [← Char.toNat_val, capital, UInt32.toNat_add, wraps, Char.toNat_val]
    omega
  · have same : c.toUpper = c := dif_neg (small ∘ isLower_iff.mpr)
    rw [same]

/-- Two characters differ at most in case: they are the same, or the capital and the small form of
an ASCII letter. -/
def SameLetter (c d : Char) : Prop :=
  c = d ∨ (c.isUpper = true ∧ d.toNat = c.toNat + 32) ∨
    (d.isUpper = true ∧ c.toNat = d.toNat + 32)

/-- Characters have the same capital exactly if they differ at most in case. -/
theorem toUpper_eq_toUpper_iff : c.toUpper = d.toUpper ↔ SameLetter c d := by
  simp only [SameLetter, ← Char.toNat_inj, toNat_toUpper, isUpper_iff_toNat, isLower_iff_toNat]
  split_ifs <;> omega

/-- Capital letters are the capitals of letters and of nothing else. -/
theorem isUpper_toUpper (c : Char) : c.toUpper.isUpper = c.isAlpha := by
  rw [Bool.eq_iff_iff, isUpper_iff_toNat, isAlpha_iff_toNat, toNat_toUpper]
  simp only [isLower_iff_toNat]
  split_ifs <;> omega

/-- No letter is a digit. -/
theorem isDigit_of_isAlpha (letter : c.isAlpha = true) : c.isDigit = false := by
  rw [isAlpha_iff_toNat] at letter
  rw [Bool.eq_false_iff]
  intro digit
  have bounds : 48 ≤ c.toNat ∧ c.toNat ≤ 57 := Char.isDigit_iff_toNat.mp digit
  omega

/-- What is not in ASCII, dots, underscores and digits are no letters. -/
theorem isAlpha_eq_false
    (other : 128 ≤ c.toNat ∨ c = '.' ∨ c = '_' ∨ c.isDigit = true) : c.isAlpha = false := by
  rw [Bool.eq_false_iff]
  intro letter
  rcases other with large | rfl | rfl | digit
  · rw [isAlpha_iff_toNat] at letter
    omega
  · contradiction
  · contradiction
  · rw [isDigit_of_isAlpha letter] at digit
    contradiction

end Assembly8085
