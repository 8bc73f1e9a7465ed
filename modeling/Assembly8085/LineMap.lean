import Assembly8085.Bisection

/-!
# Lines and columns

A line map lists where the lines of a source start, and turns an offset into a line and a
column, both counted from zero. A line ends behind a line feed; a carriage return ends none.
-/
namespace Assembly8085

/-- Where the lines of a source start. -/
structure LineMap where
  /-- Offsets in ascending order; the first one is zero. -/
  starts : Array Nat
  deriving DecidableEq

namespace LineMap

/-- The offsets just behind the line feeds of a text that starts at an offset. -/
def startsBehind (offset : Nat) : List Char → List Nat
  | [] => []
  | c :: rest =>
    let next := offset + c.utf8Size
    if c = '\n' then next :: startsBehind next rest else startsBehind next rest

/-- The line map of a source. -/
def ofText (source : List Char) : LineMap := ⟨(0 :: startsBehind 0 source).toArray⟩

/-- The line of an offset: the last one that starts at it or before it. -/
def lineOf (map : LineMap) (offset : Nat) : Nat :=
  Bisection.border map.starts (fun start => decide (start ≤ offset)) - 1

/-- The line of an offset and the number of bytes between the start of that line and it. -/
def place (map : LineMap) (offset : Nat) : Nat × Nat :=
  let line := map.lineOf offset
  (line, offset - map.starts.getD line 0)

example : (ofText "nop\r\nhlt".toList).starts = #[0, 5] := by decide
example : (ofText "nop\rhlt".toList).starts = #[0] := by decide
example : (ofText "nop\n\nmvi a, 1\nhlt".toList).place 9 = (2, 4) := by decide
example : (ofText "nop\n".toList).place 4 = (1, 0) := by decide

end LineMap

end Assembly8085
