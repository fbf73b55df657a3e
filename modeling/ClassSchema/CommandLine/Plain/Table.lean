import ClassSchema.CommandLine.Console
import ClassSchema.Text.Pieces
import ClassSchema.Text.Width

namespace ClassSchema

namespace Table

def cellLines (cell : String) : List (List Char) := Text.pieces '\n' cell.toList

def cellWidth (cell : String) : Nat := ((cellLines cell).map Text.width).foldl max 0

def blanks (n : Nat) : List Char := List.replicate n ' '

abbrev Sized := Column × Nat

def sized (rows : List (List String)) : List Column → List Sized
  | [] => []
  | c :: cs =>
    let cells := c.heading :: rows.filterMap List.head?
    (c, (cells.map cellWidth).foldl max 0) :: sized (rows.map List.tail) cs

def padded (c : Sized) (line : List Char) : List Char :=
  let space := blanks (c.2 - Text.width line)
  (if c.1.rightAligned then space ++ line else line ++ space) ++ blanks 2

def rowLine (i : Nat) (cells : List (Sized × List (List Char))) : List Char :=
  cells.flatMap (fun c => padded c.1 (c.2.getD i [])) ++ ['\n']

def rowText (columns : List Sized) (row : List String) : List Char :=
  let cells := columns.zip (row.map cellLines)
  let height := (cells.map (·.2.length)).foldl max 0
  (List.range height).flatMap (rowLine · cells)

/-- A row of headings and rows of cells, without rules. A column is as wide as its widest cell, and two
blanks follow it. -/
def text (columns : List Column) (rows : List (List String)) : String :=
  let table := columns.map (·.heading) :: rows
  String.ofList (table.flatMap (rowText (sized rows columns)))

example : text [⟨"#", true⟩, ⟨"Field", false⟩] [["10", "a"], ["2", "b\nc"]]
    = " #  Field  \n10  a      \n 2  b      \n    c      \n" := by decide

end Table

end ClassSchema
