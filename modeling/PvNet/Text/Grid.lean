import PvNet.Text.Blank
import PvNet.Text.Width
set_option autoImplicit false

/-!
# Tables with borders

A header and rows of cells, with a frame around them.  Every column is as wide as its
widest line; a cell has as many lines as its text, and a row as many as its highest
cell.
-/

namespace PvNet.Text

/-- A table of texts. -/
structure Grid where
  header : List String
  rows : List (List String)

namespace Grid

/-- The characters of a line between rows: at its left end, along a cell, between two cells and at
its right end. -/
structure Rule where
  left : String
  fill : Char
  between : String
  right : String

/-- The line above the table. -/
def topRule : Rule := ⟨"┌", '─', "┬", "┐"⟩

/-- The line below the header. -/
def headerRule : Rule := ⟨"╞", '═', "╪", "╡"⟩

/-- The line between two rows. -/
def rowRule : Rule := ⟨"├", '╌', "┼", "┤"⟩

/-- The line below the table. -/
def bottomRule : Rule := ⟨"└", '─', "┴", "┘"⟩

/-- A line between rows. -/
def Rule.render (r : Rule) (widths : List Nat) : String :=
  r.left ++
    r.between.intercalate (widths.map fun w => String.ofList (List.replicate (w + 2) r.fill)) ++
    r.right

def cellLines (cell : String) : List String := fields '\n' cell

def cellWidth (cell : String) : Nat := ((cellLines cell).map width).foldl max 0

/-- The widths of the columns. -/
def widths (g : Grid) : List Nat :=
  g.rows.foldl (fun ws row => List.zipWith max ws (row.map cellWidth)) (g.header.map cellWidth)

/-- The lines of a row. -/
def renderRow (widths : List Nat) (row : List String) : List String :=
  let cells := row.map cellLines
  let height := (cells.map List.length).foldl max 0
  (List.range height).map fun i =>
    let texts := List.zipWith (fun w (cell : List String) => padded w (cell.getD i "")) widths cells
    "│ " ++ " ┆ ".intercalate texts ++ " │"

/-- The lines of the table. -/
def lines (g : Grid) : List String :=
  let ws := g.widths
  [topRule.render ws] ++ renderRow ws g.header ++ [headerRule.render ws] ++
    ((g.rows.map (renderRow ws)).intersperse [rowRule.render ws]).flatten ++
    [bottomRule.render ws]

end Grid

end PvNet.Text
