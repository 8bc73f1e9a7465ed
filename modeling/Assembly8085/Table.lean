/-!
# Tables of text

Rows of cells, with the cells of a column below each other. A cell is followed by spaces up to
one more than the widest of its column takes; the last of a row is followed by nothing.
-/
namespace Assembly8085.Table

/-- The width of each column that two lists of widths need. -/
def widen : List Nat → List Nat → List Nat
  | [], others => others
  | widths, [] => widths
  | width :: widths, other :: others => max width other :: widen widths others

/-- The widths of the columns, in characters. -/
def widths (rows : List (List String)) : List Nat :=
  rows.foldl (fun widths row => widen widths (row.map String.length)) []

/-- A cell with spaces behind it up to a width. -/
def pad (width : Nat) (cell : String) : String :=
  cell ++ String.ofList (List.replicate (width - cell.length) ' ')

/-- A row in columns of given widths. -/
def renderRow : List Nat → List String → String
  | _, [] => "\n"
  | _, [cell] => cell ++ "\n"
  | width :: widths, cell :: cells => pad (width + 1) cell ++ renderRow widths cells
  | [], cell :: cells => cell ++ " " ++ renderRow [] cells

/-- The rows below each other, and an empty line behind them. -/
def render (rows : List (List String)) : String :=
  String.join (rows.map (renderRow (widths rows))) ++ "\n"

end Assembly8085.Table
