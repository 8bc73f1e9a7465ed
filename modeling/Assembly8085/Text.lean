/-!
# Text measured in bytes

A text is a list of characters. Positions and lengths of a source count the bytes of its
UTF-8 form, so the length of a text here is the sum of what its characters take.
-/
namespace Assembly8085.Text

/-- The number of bytes of a text in UTF-8. -/
def byteLength : List Char → Nat
  | [] => 0
  | c :: rest => c.utf8Size + byteLength rest

/-- The empty text takes no bytes. -/
@[simp] theorem byteLength_nil : byteLength [] = 0 := rfl

/-- A character in front adds its own bytes. -/
@[simp] theorem byteLength_cons (c : Char) (rest : List Char) :
    byteLength (c :: rest) = c.utf8Size + byteLength rest := rfl

/-- The bytes of two texts in a row add up. -/
@[simp] theorem byteLength_append (first second : List Char) :
    byteLength (first ++ second) = byteLength first + byteLength second := by
  induction first with
  | nil => simp
  | cons c rest hypothesis => simp [hypothesis, Nat.add_assoc]

/-- A text that holds a character takes at least one byte. -/
theorem byteLength_pos {text : List Char} (nonempty : text ≠ []) : 0 < byteLength text := by
  cases text with
  | nil => exact absurd rfl nonempty
  | cons c rest => exact Nat.lt_of_lt_of_le c.utf8Size_pos (Nat.le_add_right _ _)

end Assembly8085.Text
