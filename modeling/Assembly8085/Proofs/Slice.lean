import Assembly8085.Diagnostic

/-!
# Slices of a text

Offsets count bytes, so an offset may fall into the middle of a character or behind the text, and
two offsets may be the wrong way round. There is a slice between two offsets exactly if none of
this is the case. Spans that follow each other without a gap have slices that make up the text.
-/
namespace Assembly8085

namespace Text

/-- Cuts a text at an offset, unless that is behind the text or within a character. -/
def cut? : List Char → Nat → Option (List Char × List Char)
  | text, 0 => some ([], text)
  | [], _ + 1 => none
  | c :: rest, offset + 1 =>
    if c.utf8Size ≤ offset + 1 then
      (cut? rest (offset + 1 - c.utf8Size)).map fun (before, behind) => (c :: before, behind)
    else none

/-- The characters of a text between two offsets, if a text can be cut at both and the second is
not in front of the first. -/
def slice? (text : List Char) (start stop : Nat) : Option (List Char) :=
  if start ≤ stop then
    (cut? text start).bind fun parts => (cut? parts.2 (stop - start)).map (·.1)
  else none

/-- A text can be cut behind any part in front of it. -/
theorem cut?_append (before behind : List Char) :
    cut? (before ++ behind) (byteLength before) = some (before, behind) := by
  induction before with
  | nil => cases behind <;> rfl
  | cons c more ih =>
    have positive := c.utf8Size_pos
    obtain ⟨offset, length⟩ : ∃ offset, c.utf8Size + byteLength more = offset + 1 :=
      ⟨c.utf8Size + byteLength more - 1, by omega⟩
    have rest : offset + 1 - c.utf8Size = byteLength more := by omega
    rw [byteLength_cons, length, List.cons_append, cut?, if_pos (by omega), rest, ih]
    rfl

/-- Cutting a text gives the parts of it in front of the offset and behind it. -/
theorem eq_append_of_cut? {text : List Char} {offset : Nat} {before behind : List Char}
    (found : cut? text offset = some (before, behind)) :
    text = before ++ behind ∧ byteLength before = offset := by
  fun_induction cut? text offset generalizing before with
  | case1 text =>
    obtain ⟨rfl, rfl⟩ : [] = before ∧ text = behind := by simpa using found
    exact ⟨rfl, rfl⟩
  | case2 offset => contradiction
  | case3 c rest offset fits ih =>
    obtain ⟨⟨front, rear⟩, here, same⟩ := Option.map_eq_some_iff.mp found
    obtain ⟨rfl, rfl⟩ : c :: front = before ∧ rear = behind := by simpa using same
    obtain ⟨rfl, length⟩ := ih here
    exact ⟨rfl, by rw [byteLength_cons]; omega⟩
  | case4 c rest offset short => contradiction

/-- A slice is a part of the text that starts and ends at the offsets. -/
theorem slice?_eq_some_iff {text part : List Char} {start stop : Nat} :
    slice? text start stop = some part ↔
      ∃ before behind, text = before ++ part ++ behind ∧ byteLength before = start ∧
        start + byteLength part = stop := by
  constructor
  · intro found
    rw [slice?] at found
    split at found
    · obtain ⟨⟨before, rest⟩, first, found⟩ := Option.bind_eq_some_iff.mp found
      obtain ⟨⟨middle, behind⟩, second, rfl⟩ := Option.map_eq_some_iff.mp found
      obtain ⟨rfl, front⟩ := eq_append_of_cut? first
      obtain ⟨rfl, length⟩ := eq_append_of_cut? second
      refine ⟨before, behind, (List.append_assoc ..).symm, front, ?_⟩
      change start + byteLength middle = stop
      omega
    · contradiction
  · rintro ⟨before, behind, rfl, rfl, rfl⟩
    rw [slice?, if_pos (Nat.le_add_right ..), List.append_assoc, cut?_append, Option.bind_some,
      Nat.add_sub_cancel_left, cut?_append]
    rfl

/-- The bytes of a text are those of the string that it makes. -/
theorem utf8ByteSize_ofList (text : List Char) :
    (String.ofList text).utf8ByteSize = byteLength text := by
  induction text with
  | nil => rfl
  | cons c rest ih => simp [String.ofList_cons, String.utf8ByteSize_append, ih]

/-- The offset behind a part in front of a text is one of a character, or of the end. -/
theorem isValid_byteLength (before behind : List Char) :
    String.Pos.Raw.IsValid (String.ofList (before ++ behind)) ⟨byteLength before⟩ := by
  rw [String.Pos.Raw.isValid_ofList]
  exact ⟨before.length, by rw [List.take_left, utf8ByteSize_ofList]⟩

end Text

/-- A stretch of a text. -/
structure Span where
  /-- The offset of its first byte. -/
  position : Nat
  /-- The number of its bytes. -/
  length : Nat
  deriving DecidableEq

/-- The offset just behind a span. -/
def Span.stop (span : Span) : Nat := span.position + span.length

/-- The characters of a text in a span. -/
def Span.slice? (text : List Char) (span : Span) : Option (List Char) :=
  Text.slice? text span.position span.stop

/-- The span of a token. -/
def Token.span (token : Token) : Span := ⟨token.position, token.length⟩

/-- The span of a location. -/
def Location.span (location : Location) : Span := ⟨location.position, location.length⟩

/-- Spans that are not empty follow each other from an offset to another one, without a gap and
without overlap. -/
def Tiles (start stop : Nat) : List Span → Prop
  | [] => start = stop
  | span :: others => span.position = start ∧ 0 < span.length ∧ Tiles span.stop stop others

end Assembly8085
