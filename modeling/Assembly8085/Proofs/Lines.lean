import Assembly8085.LineMap
import Assembly8085.Proofs.Bisection
import Assembly8085.Text
import Mathlib.Data.Prod.Lex
import Mathlib.Order.Monotone.Basic

/-!
# Lines counted in bytes

A line map is made from characters and holds offsets of bytes. No character but a line feed has the
byte of one in its UTF-8 form, so the line of an offset, which is searched for, is the number of
such bytes in front of it, and the column is the number of those behind the last one. So no two
offsets have the same place, and places stand in the order of their offsets.
-/
namespace Assembly8085

namespace Text

/-- The bytes of a text in UTF-8. -/
def bytes (text : List Char) : List UInt8 := (String.ofList text).toUTF8.data.toList

/-- The byte of a line feed. -/
def lineFeed : UInt8 := 10

/-- The bytes of a text are those of its characters. -/
theorem bytes_eq (text : List Char) : bytes text = text.flatMap String.utf8EncodeChar :=
  List.toList_data_toByteArray

/-- The empty text has no bytes. -/
@[simp] theorem bytes_nil : bytes [] = [] := bytes_eq []

/-- The bytes of the first character come first. -/
@[simp] theorem bytes_cons (c : Char) (rest : List Char) :
    bytes (c :: rest) = String.utf8EncodeChar c ++ bytes rest := by
  rw [bytes_eq, bytes_eq, List.flatMap_cons]

/-- The length of a text counts its bytes. -/
@[simp] theorem length_bytes (text : List Char) : (bytes text).length = byteLength text := by
  induction text with
  | nil => simp
  | cons c rest ih => simp [ih]

/-- A byte that is made of a number is not that of a line feed unless the number says so. -/
theorem ofNat_ne_lineFeed {n : Nat} (small : n < 256) (other : n ≠ 10) :
    UInt8.ofNat n ≠ lineFeed := by
  intro same
  have code := congrArg UInt8.toNat same
  rw [UInt8.toNat_ofNat', Nat.mod_eq_of_lt small] at code
  exact other code

/-- No character but a line feed has its byte, also where it takes several. -/
theorem ne_lineFeed_of_mem {c : Char} (other : c ≠ '\n') {byte : UInt8}
    (member : byte ∈ String.utf8EncodeChar c) : byte ≠ lineFeed := by
  have code : c.val.toNat ≠ 10 := fun same => other (Char.toNat_inj.mp same)
  simp only [String.utf8EncodeChar] at member
  split at member
  · rw [List.mem_singleton.mp member]
    exact ofNat_ne_lineFeed (by omega) code
  · -- Each of several bytes carries a marker that is added to a part of the code.
    split_ifs at member
    all_goals
      simp only [List.mem_cons, List.not_mem_nil, or_false] at member
      rcases member with rfl | rfl | rfl | rfl
    all_goals exact ofNat_ne_lineFeed (by omega) (by omega)

end Text

namespace LineMap

/-- Each line starts behind the one before it, and the first behind a line feed of a text starts
behind the offset that the text starts at. -/
theorem pairwise_startsBehind (offset : Nat) (text : List Char) :
    (offset :: startsBehind offset text).Pairwise (· < ·) := by
  induction text generalizing offset with
  | nil => exact List.pairwise_singleton ..
  | cons c rest ih =>
    have onward : offset < offset + c.utf8Size := Nat.lt_add_of_pos_right c.utf8Size_pos
    have later := ih (offset + c.utf8Size)
    have behind : ∀ start ∈ (offset + c.utf8Size) :: startsBehind (offset + c.utf8Size) rest,
        offset < start := by
      intro start member
      rcases List.mem_cons.mp member with rfl | member
      · exact onward
      · exact Nat.lt_trans onward (List.rel_of_pairwise_cons later member)
    rw [startsBehind]
    split
    · exact .cons behind later
    · exact .cons (fun start member => behind start (.tail _ member)) later.of_cons

/-- As many lines start up to an offset as there are line feeds in front of it. -/
theorem countP_startsBehind (offset other : Nat) (text : List Char) :
    (startsBehind offset text).countP (fun start => decide (start ≤ other)) =
      ((Text.bytes text).take (other - offset)).count Text.lineFeed := by
  induction text generalizing offset with
  | nil => simp [startsBehind]
  | cons c rest ih =>
    rw [startsBehind, Text.bytes_cons]
    split
    · rename_i feed
      have one : String.utf8EncodeChar c = [Text.lineFeed] := by rw [feed]; decide
      have width : c.utf8Size = 1 := by rw [feed]; decide
      rw [List.countP_cons, ih, one, width]
      rcases Nat.lt_or_ge other (offset + 1) with short | reached
      · have none : other - offset = 0 ∧ other - (offset + 1) = 0 := by omega
        simp only [none, Nat.not_le_of_lt short, decide_false, Bool.false_eq_true, if_false,
          List.take_zero, List.count_nil]
      · have further : other - offset = (other - (offset + 1)) + 1 := by omega
        rw [if_pos (decide_eq_true reached), further, List.singleton_append, List.take_succ_cons,
          List.count_cons_self]
    · rename_i ordinary
      have none : Text.lineFeed ∉ (String.utf8EncodeChar c).take (other - offset) :=
        fun member => Text.ne_lineFeed_of_mem ordinary (List.mem_of_mem_take member) rfl
      rw [ih, List.take_append, List.count_append, List.count_eq_zero_of_not_mem none,
        String.length_utf8EncodeChar, Nat.sub_sub, Nat.zero_add]

variable (source : List Char)

/-- A line starts at the front, and one behind each line feed. -/
theorem toList_starts_ofText : (ofText source).starts.toList = 0 :: startsBehind 0 source := rfl

/-- The lines that start up to an offset are the first one and one for each line feed in front of
the offset, and the search over all of them finds the border. -/
theorem isBorder_ofText (offset : Nat) :
    Bisection.IsBorder (ofText source).starts (fun start => decide (start ≤ offset))
      (((Text.bytes source).take offset).count Text.lineFeed + 1) := by
  have closed : (ofText source).starts.toList.Pairwise fun earlier later =>
      decide (later ≤ offset) = true → decide (earlier ≤ offset) = true := by
    refine (pairwise_startsBehind 0 source).imp fun {earlier later} ascends reached => ?_
    simp only [decide_eq_true_eq] at reached ⊢
    exact Nat.le_trans (Nat.le_of_lt ascends) reached
  have isBorder := Bisection.isBorder_countP closed
  rw [toList_starts_ofText, List.countP_cons, countP_startsBehind] at isBorder
  simpa using isBorder

/-- The line of an offset is the number of line feeds in front of it. -/
theorem lineOf_ofText (offset : Nat) :
    (ofText source).lineOf offset = ((Text.bytes source).take offset).count Text.lineFeed := by
  rw [lineOf, (isBorder_ofText source offset).border_eq, Nat.add_sub_cancel]

/-- A line starts at an offset or before it exactly if it is no later than that of the offset. -/
theorem start_le_iff {line start : Nat} (found : (ofText source).starts[line]? = some start)
    (offset : Nat) : start ≤ offset ↔ line ≤ (ofText source).lineOf offset := by
  have passes := (isBorder_ofText source offset).passes line start found
  rwa [decide_eq_true_eq, ← lineOf_ofText, Nat.lt_succ_iff] at passes

/-- The line of an offset starts somewhere, at the offset or before it. -/
theorem exists_start (offset : Nat) :
    ∃ start, (ofText source).starts[(ofText source).lineOf offset]? = some start ∧
      start ≤ offset := by
  have within := (isBorder_ofText source offset).within
  rw [← lineOf_ofText] at within
  have found := Array.getElem?_eq_getElem within
  exact ⟨_, found, (start_le_iff source found offset).mpr (Nat.le_refl _)⟩

/-- A later offset is on no earlier line. -/
theorem lineOf_mono {offset other : Nat} (ascends : offset ≤ other) :
    (ofText source).lineOf offset ≤ (ofText source).lineOf other := by
  rw [lineOf_ofText, lineOf_ofText]
  exact (List.take_sublist_take_left ascends).count_le _

/-- A line map is exact about some bytes if its lines and columns count what is in front of an
offset, and if the offset can be told from them. -/
structure Exact (map : LineMap) (bytes : List UInt8) : Prop where
  /-- Each line starts behind the one before it. -/
  ascending : map.starts.toList.Pairwise (· < ·)
  /-- The first one starts at the front. -/
  first : map.starts[0]? = some 0
  /-- The search over the starts counts the lines up to that of an offset, which are one at
  least. -/
  found : ∀ offset,
    Bisection.border map.starts (fun start => decide (start ≤ offset)) = map.lineOf offset + 1
  /-- The line of an offset is the number of line feeds among the bytes in front of it. -/
  line : ∀ offset, map.lineOf offset = (bytes.take offset).count Text.lineFeed
  /-- The line starts at the offset or before it, the next one behind it, and the column counts the
  bytes between the start and the offset. -/
  column : ∀ offset, ∃ start column, map.place offset = (map.lineOf offset, column) ∧
    map.starts[map.lineOf offset]? = some start ∧ start ≤ offset ∧
    (∀ next, map.starts[map.lineOf offset + 1]? = some next → offset < next) ∧
    start + column = offset
  /-- No two offsets have the same place. -/
  injective : Function.Injective map.place
  /-- A later offset has a later place: a later line, or the same line and a later column. -/
  monotone : StrictMono fun offset => toLex (map.place offset)

/-- The place of an offset is its line with what is left of it behind the start. -/
theorem place_eq {offset start : Nat}
    (found : (ofText source).starts[(ofText source).lineOf offset]? = some start) :
    (ofText source).place offset = ((ofText source).lineOf offset, offset - start) := by
  rw [place, Array.getD_eq_getD_getElem?, found, Option.getD_some]

/-- A later offset has a later place. -/
theorem strictMono_place : StrictMono fun offset => toLex ((ofText source).place offset) := by
  intro offset other ascends
  obtain ⟨start, found, reached⟩ := exists_start source offset
  rw [Prod.Lex.toLex_lt_toLex, place_eq source found]
  rcases Nat.lt_or_eq_of_le (lineOf_mono source (Nat.le_of_lt ascends)) with later | same
  · exact .inl later
  · rw [place_eq source (same ▸ found)]
    exact .inr ⟨same, Nat.sub_lt_sub_right reached ascends⟩

/-- The line map of a text is exact about its bytes. -/
theorem exact_ofText : (ofText source).Exact (Text.bytes source) where
  ascending := pairwise_startsBehind 0 source
  first := rfl
  found offset := by rw [(isBorder_ofText source offset).border_eq, lineOf_ofText]
  line := lineOf_ofText source
  column offset := by
    obtain ⟨start, found, reached⟩ := exists_start source offset
    refine ⟨start, offset - start, place_eq source found, found, reached, ?_,
      Nat.add_sub_of_le reached⟩
    intro next later
    exact Nat.lt_of_not_le fun short =>
      Nat.not_succ_le_self _ ((start_le_iff source later offset).mp short)
  injective offset other same :=
    (strictMono_place source).injective (congrArg toLex same)
  monotone := strictMono_place source

/-- The start of the line of an offset is on that line itself. -/
theorem lineOf_start {offset start : Nat}
    (found : (ofText source).starts[(ofText source).lineOf offset]? = some start)
    (reached : start ≤ offset) : (ofText source).lineOf start = (ofText source).lineOf offset :=
  Nat.le_antisymm (lineOf_mono source reached)
    ((start_le_iff source found start).mp (Nat.le_refl _))

/-- A line that does not start at the front starts behind a line feed. -/
theorem getLast?_take_start {line start : Nat}
    (found : (ofText source).starts[line]? = some start) :
    start = 0 ∨ ((Text.bytes source).take start).getLast? = some Text.lineFeed := by
  cases start with
  | zero => exact .inl rfl
  | succ before =>
    right
    -- The offset before the start is on an earlier line, so there is a line feed between the two.
    have earlier : (ofText source).lineOf before < (ofText source).lineOf (before + 1) := by
      have here := (start_le_iff source found (before + 1)).mp (Nat.le_refl _)
      refine Nat.lt_of_lt_of_le (Nat.lt_of_not_le fun late => ?_) here
      exact Nat.not_succ_le_self _ ((start_le_iff source found before).mpr late)
    rw [lineOf_ofText, lineOf_ofText, List.take_add_one, List.count_append] at earlier
    rw [List.take_add_one]
    cases last : (Text.bytes source)[before]? with
    | none => simp [last] at earlier
    | some byte =>
      have feed : byte = Text.lineFeed := by
        by_contra other
        simp [last, other] at earlier
      simp [feed]

/-- Up to an offset within a text there are whole lines, of which the line of the offset gives the
number, and a part of a line, of which the column gives the length. -/
theorem exists_lines {offset : Nat} (within : offset ≤ Text.byteLength source) :
    ∃ lines part, (Text.bytes source).take offset = lines ++ part ∧
      (lines = [] ∨ lines.getLast? = some Text.lineFeed) ∧ Text.lineFeed ∉ part ∧
      (ofText source).place offset = (lines.count Text.lineFeed, part.length) := by
  obtain ⟨start, found, reached⟩ := exists_start source offset
  have cut := (List.take_append_drop start ((Text.bytes source).take offset)).symm
  rw [List.take_take, Nat.min_eq_left reached] at cut
  have lines : ((Text.bytes source).take start).count Text.lineFeed =
      (ofText source).lineOf offset := by
    rw [← lineOf_ofText, lineOf_start source found reached]
  refine ⟨_, _, cut, ?_, ?_, ?_⟩
  · rcases getLast?_take_start source found with rfl | feed
    · exact .inl List.take_zero
    · exact .inr feed
  · have all := lineOf_ofText source offset
    rw [cut, List.count_append, lines] at all
    exact List.count_eq_zero.mp (by omega)
  · rw [place_eq source found, lines, List.length_drop, List.length_take, Text.length_bytes,
      Nat.min_eq_left within]

end LineMap

end Assembly8085
