import Assembly8085.Proofs.Lines

/-!
# The order of texts

The bytes of a character carry its code in groups of six bits, the highest first, and the first
byte tells how many there are: the more, the higher it is. So a character with a lower code is
below another one in its first byte that differs, and texts stand in the order of their bytes,
compared one after the other, exactly if they stand in that order by the codes of their characters.
-/
namespace Assembly8085.Text

/-- A first byte that is made of a lower number decides, whatever comes behind. -/
theorem ofNat_cons_lt_cons {low high : Nat} (small : high < 256) (ascends : low < high)
    (left right : List UInt8) : UInt8.ofNat low :: left < UInt8.ofNat high :: right := by
  refine List.cons_lt_cons_iff.mpr (.inl ?_)
  rw [UInt8.lt_iff_toNat_lt, UInt8.toNat_ofNat_of_lt' small,
    UInt8.toNat_ofNat_of_lt' (Nat.lt_trans ascends small)]
  exact ascends

/-- A number in groups of six bits, as many as are asked for. A first byte takes what is left, on
top of a marker. -/
def sixBits (marker : Nat) : (groups number : Nat) → List UInt8
  | 0, number => [UInt8.ofNat (number + marker)]
  | groups + 1, number =>
    sixBits marker groups (number / 64) ++ [UInt8.ofNat (number % 64 + 128)]

/-- The first byte carries what is in front of the groups. -/
theorem exists_sixBits_eq_cons (marker groups number : Nat) :
    ∃ others, sixBits marker groups number =
      UInt8.ofNat (number / 64 ^ groups + marker) :: others := by
  induction groups generalizing number with
  | zero => exact ⟨[], by simp [sixBits]⟩
  | succ groups ih =>
    obtain ⟨others, front⟩ := ih (number / 64)
    refine ⟨others ++ [UInt8.ofNat (number % 64 + 128)], ?_⟩
    rw [sixBits, front, Nat.div_div_eq_div_mul, ← Nat.pow_succ', List.cons_append]

/-- In as many groups, a lower number is below a higher one, whatever comes behind. -/
theorem sixBits_append_lt {marker groups low high : Nat}
    (fits : high / 64 ^ groups + marker < 256) (ascends : low < high) (left right : List UInt8) :
    sixBits marker groups low ++ left < sixBits marker groups high ++ right := by
  induction groups generalizing low high left right with
  | zero =>
    rw [Nat.pow_zero, Nat.div_one] at fits
    exact ofNat_cons_lt_cons fits (by omega) left right
  | succ groups ih =>
    rw [sixBits, sixBits, List.append_assoc, List.append_assoc]
    -- Either a group in front of the last one differs, or the last one alone does.
    rcases Nat.lt_or_eq_of_le (Nat.div_le_div_right (Nat.le_of_lt ascends)) with front | same
    · rw [Nat.pow_succ', ← Nat.div_div_eq_div_mul] at fits
      exact ih fits front _ _
    · rw [same]
      have last : low % 64 + 128 < high % 64 + 128 := by omega
      exact List.append_left_lt (ofNat_cons_lt_cons (by omega) last left right)

/-- What the first byte of a character has on top of its bits, by the number of all its bytes. -/
def marker : Nat → Nat
  | 0 | 1 => 0
  | 2 => 0xc0
  | 3 => 0xe0
  | 4 => 0xf0
  | _ => 0xf8

/-- More bytes have no lower marker. -/
theorem monotone_marker : Monotone marker := by
  refine monotone_nat_of_le_succ fun size => ?_
  match size with
  | 0 | 1 | 2 | 3 | 4 => decide
  | _ + 5 => exact Nat.le_refl _

/-- No code is too large for four bytes. -/
theorem code_lt (c : Char) : c.toNat < 0x110000 := by
  have valid := c.valid
  simp only [UInt32.isValidChar, Nat.isValidChar, Char.toNat_val] at valid
  omega

/-- The number of bytes of a character goes by its code. -/
theorem utf8Size_eq (c : Char) :
    c.utf8Size = if c.toNat ≤ 0x7f then 1 else if c.toNat ≤ 0x7ff then 2
      else if c.toNat ≤ 0xffff then 3 else 4 := rfl

/-- A higher code takes no fewer bytes. -/
theorem utf8Size_mono {c d : Char} (ascends : c < d) : c.utf8Size ≤ d.utf8Size := by
  have codes : c.toNat < d.toNat := ascends
  rw [utf8Size_eq, utf8Size_eq]
  split_ifs <;> omega

/-- The bytes of a character are its code in groups of six bits. -/
theorem utf8EncodeChar_eq (c : Char) :
    String.utf8EncodeChar c = sixBits (marker c.utf8Size) (c.utf8Size - 1) c.toNat := by
  have bound := code_lt c
  have twice : c.toNat / 4096 = c.toNat / 64 / 64 := by omega
  have thrice : c.toNat / 262144 = c.toNat / 64 / 64 / 64 := by omega
  rw [utf8Size_eq, String.utf8EncodeChar]
  simp only [Char.toNat_val, twice, thrice]
  split_ifs
  · rfl
  · have first : c.toNat / 64 < 32 := by omega
    rw [Nat.mod_eq_of_lt first]
    rfl
  · have first : c.toNat / 64 / 64 < 16 := by omega
    rw [Nat.mod_eq_of_lt first]
    rfl
  · have first : c.toNat / 64 / 64 / 64 < 8 := by omega
    rw [Nat.mod_eq_of_lt first]
    rfl

/-- The first byte of a character stays below the markers of those with more bytes. -/
theorem first_lt_marker (c : Char) :
    c.toNat / 64 ^ (c.utf8Size - 1) + marker c.utf8Size < marker (c.utf8Size + 1) := by
  have bound := code_lt c
  rw [utf8Size_eq]
  split_ifs
  all_goals
    simp only [marker]
    omega

/-- A character with a lower code is below one with a higher code by bytes, whatever comes behind
the two. -/
theorem utf8EncodeChar_append_lt {c d : Char} (ascends : c < d) (left right : List UInt8) :
    String.utf8EncodeChar c ++ left < String.utf8EncodeChar d ++ right := by
  have small : marker (d.utf8Size + 1) ≤ marker 5 :=
    monotone_marker (Nat.succ_le_succ d.utf8Size_le_four)
  have byte : d.toNat / 64 ^ (d.utf8Size - 1) + marker d.utf8Size < 256 :=
    Nat.lt_trans (Nat.lt_of_lt_of_le (first_lt_marker d) small) (by decide)
  rw [utf8EncodeChar_eq, utf8EncodeChar_eq]
  -- Of two different numbers of bytes the first byte tells; with as many, the groups decide.
  rcases Nat.lt_or_eq_of_le (utf8Size_mono ascends) with fewer | same
  · have between : c.toNat / 64 ^ (c.utf8Size - 1) + marker c.utf8Size < marker d.utf8Size :=
      Nat.lt_of_lt_of_le (first_lt_marker c) (monotone_marker fewer)
    obtain ⟨others, front⟩ := exists_sixBits_eq_cons (marker c.utf8Size) (c.utf8Size - 1) c.toNat
    obtain ⟨more, behind⟩ := exists_sixBits_eq_cons (marker d.utf8Size) (d.utf8Size - 1) d.toNat
    rw [front, behind]
    exact ofNat_cons_lt_cons byte (Nat.lt_of_lt_of_le between (Nat.le_add_left ..)) _ _
  · rw [same]
    exact sixBits_append_lt byte ascends left right

/-- What is lower by characters is lower by bytes. -/
theorem bytes_lt_bytes {first second : List Char} (ascends : first < second) :
    bytes first < bytes second := by
  induction first generalizing second with
  | nil =>
    cases second with
    | nil => exact absurd ascends (List.lt_irrefl _)
    | cons d others =>
      obtain ⟨behind, front⟩ :=
        exists_sixBits_eq_cons (marker d.utf8Size) (d.utf8Size - 1) d.toNat
      rw [bytes_nil, bytes_cons, utf8EncodeChar_eq, front]
      exact List.nil_lt_cons ..
  | cons c rest ih =>
    cases second with
    | nil => exact absurd ascends (List.not_lt_nil _)
    | cons d others =>
      rw [bytes_cons, bytes_cons]
      rcases List.cons_lt_cons_iff.mp ascends with lower | ⟨rfl, later⟩
      · exact utf8EncodeChar_append_lt lower _ _
      · exact List.append_left_lt (ih later)

/-- Texts stand in the order of their bytes exactly if they do in that of their characters. -/
theorem bytes_lt_bytes_iff {first second : List Char} :
    bytes first < bytes second ↔ first < second := by
  refine ⟨fun ascends => ?_, bytes_lt_bytes⟩
  rcases Std.lt_trichotomy first second with lower | rfl | higher
  · exact lower
  · exact absurd ascends (List.lt_irrefl _)
  · exact absurd ascends (List.lt_asymm (bytes_lt_bytes higher))

end Assembly8085.Text
