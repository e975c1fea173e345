import Jarsmith.Text.Width

/-!
# Tables

A table has a title and columns. A cell that is wider than its column may be is cut, and ends in an
ellipsis.
-/

namespace Jarsmith

/-- A column of a table. -/
structure Column where
  title : Text
  /-- The most cells that the column takes. -/
  widest? : Option Nat
  deriving DecidableEq, Repr

/-- A table. -/
structure Table where
  title : Text
  columns : List Column
  rows : List (List Text)
  deriving DecidableEq, Repr

namespace Table

/-- The mark of a text that was cut. -/
def ellipsis : Text := "…"

/-- The beginning of a text that takes at most the given number of cells. -/
def takeCells : (limit : Nat) → Text → Text
  | _, [] => []
  | limit, c :: t => if c.cells ≤ limit then c :: takeCells (limit - c.cells) t else []

/-- A cell as its column shows it. -/
def fit (column : Column) (cell : Text) : Text :=
  match column.widest? with
  | some widest => if cell.cells ≤ widest then cell else takeCells (widest - 1) cell ++ ellipsis
  | none => cell

/-- The titles of the columns, and below them the rows as they are shown. -/
def cells (t : Table) : List (List Text) :=
  t.columns.map Column.title :: t.rows.map fun row => List.zipWith fit t.columns row

/-- The number of cells that each column takes. -/
def widths (t : Table) : List Nat :=
  t.cells.foldl (fun widths row => List.zipWith max widths (row.map Text.cells))
    (t.columns.map fun _ => 0)

/-- A row with its cells below one another's. -/
def rowLine (widths : List Nat) (row : List Text) : Text :=
  Text.joinWith "  " (List.zipWith
    (fun width cell => cell ++ List.replicate (width - cell.cells) 0x20) widths row)

/-- The lines of a table. -/
def lines (t : Table) : List Text := t.title :: t.cells.map (rowLine t.widths)

end Table

end Jarsmith
