import Lockstep.Table.Column
import Lockstep.Text.Lines

/-!
# Tables

A table is written without rules: columns stand two blanks apart, and each is as wide as its
widest cell, but two more than its heading at least.  Numbers and their headings are aligned
right, all else is stripped and aligned left.  If a cell or heading has a line end, each row takes
as many lines as its tallest cell.

A row whose first or second cell is the character `U+0001` parts the rows around it by an empty
line.
-/

namespace Lockstep.Table

/-- How much wider than its heading a column is at least. -/
def headingSpace : Nat := 2

/-- What stands between two columns. -/
def gutter : Text := [' ', ' ']

/-- Whether a character ends a line within a cell. -/
def isLineEnd (c : Char) : Bool := c == '\n' || c == '\r'

/-- The width of a cell: that of its widest line if cells may have several. -/
def widthOf (several : Bool) (s : Text) : Nat :=
  if several then ((Text.splitOn isLineEnd s).map List.length).foldl max 0 else s.length

/-- Extend a text on the left. -/
def padLeft (width : Nat) (s : Text) : Text := List.replicate (width - s.length) ' ' ++ s

/-- Extend a text on the right. -/
def padRight (width : Nat) (s : Text) : Text := s ++ List.replicate (width - s.length) ' '

/-- Extend a text on the side that the content of its column asks for. -/
def padFor (c : Content) (width : Nat) (s : Text) : Text :=
  if c.isNumeric then padLeft width s else padRight width s

/-- A column of a table: its content, its width, and its heading and cells as lines. -/
structure Column where
  heading : List Text
  width : Nat
  cells : List (List Text)

/-- Lay out a column. -/
def column (several : Bool) (heading : Text) (cells : List Text) : Except Fault Column := do
  let content := columnContent cells
  let shown ← cells.mapM (showCell content)
  let shown := if content.isNumeric then alignPoints shown else shown.map Text.strip
  let width := (shown.map (widthOf several)).foldl max (widthOf several heading + headingSpace)
  -- Without cells nothing makes the column one of numbers.
  let pad := padFor content width
  let lines (s : Text) : List Text := if several then Lines.pieces s else [s]
  let headingLines :=
    if several then
      Lines.pieces (Text.joinWith ['\n'] ((Text.splitOn isLineEnd heading).map pad))
    else [pad heading]
  .ok ⟨headingLines, width, shown.map fun s => (lines s).map pad⟩

/-- A line of a table: the parts of its columns, without blanks at the end. -/
def line (parts : List Text) : Text := Text.stripEnd (Text.joinWith gutter parts)

/-- The lines of a row, given the width and the lines of each of its cells; a cell with fewer
lines than another one is filled up at the bottom. -/
def rowLines (cells : List (Nat × List Text)) : List Text :=
  let height := (cells.map fun c => c.2.length).foldl max 0
  (List.range height).map fun i =>
    line (cells.map fun c => c.2.getD i (List.replicate c.1 ' '))

/-- Whether a row parts the rows around it. -/
def isParting (row : List Text) : Bool := (row.take 2).contains ['\x01']

/-- Put an empty line where a row parts others, and the lines of the others in order. -/
def interleave : List (List Text) → List (List Text) → List Text
  | [], _ => []
  | row :: rows, lines =>
    if isParting row then [] :: interleave rows lines
    else match lines with
      | [] => []
      | l :: ls => l ++ interleave rows ls

/-- Write a table with the given headings and rows. -/
def write (headings : List Text) (rows : List (List Text)) : Except Fault Text := do
  let kept := rows.filter (!isParting ·)
  let several := (headings ++ kept.flatten).any fun s => s.any isLineEnd
  let columns ← headings.zipIdx.mapM fun h =>
    column several h.1 (kept.map fun row => row.getD h.2 [])
  let head := rowLines (columns.map fun c => (c.width, c.heading))
  let body := kept.zipIdx.map fun r =>
    rowLines (columns.map fun c => (c.width, c.cells.getD r.2 []))
  .ok (Text.joinWith ['\n'] (head ++ interleave rows body))

end Lockstep.Table
