import SchemaSketch.Text.Chars
import SchemaSketch.Text.Width

/-!
A grid of characters. A character of several columns stands in the first of its cells, and a
continuation mark in each of the others, so that the marks can be left out when the grid is shown.
-/
namespace SchemaSketch

structure Grid where
  columns : Nat
  cells : Array (Array Char)
  deriving DecidableEq

namespace Grid

open Text

def continuation : Char := '\x00'

def blank (rows columns : Nat) : Grid :=
  ⟨columns, Array.replicate rows (Array.replicate columns ' ')⟩

def rows (g : Grid) : Nat :=
  g.cells.size

/-- Puts a character into a cell of a row. One that falls on the second half of a wide character
blanks the cell before it. -/
def setCell (row : Array Char) (col : Nat) (c : Char) : Array Char :=
  match row[col]?, row[col - 1]? with
  | some old, some before =>
    if old = continuation ∧ 0 < col ∧ before ≠ continuation then
      (row.setIfInBounds (col - 1) ' ').setIfInBounds col c
    else row.setIfInBounds col c
  | _, _ => row

def set (g : Grid) (row col : Int) (c : Char) : Grid :=
  if 0 ≤ row ∧ 0 ≤ col then
    { g with cells := g.cells.modify row.toNat (setCell · col.toNat c) }
  else g

def setContinuations (g : Grid) (row col : Int) : Nat → Grid
  | 0 => g
  | count + 1 => (g.set row col continuation).setContinuations row (col + 1) count

def write (g : Grid) (row col : Int) : List Char → Grid
  | [] => g
  | c :: s =>
    ((g.set row col c).setContinuations row (col + 1) (charWidth c - 1)).write row
      (col + (charWidth c : Int)) s

def lineText (row : Array Char) : List Char :=
  trimEnd (row.toList.filter (· ≠ continuation))

def text (g : Grid) : String :=
  String.intercalate "\n" (g.cells.toList.map fun row => String.ofList (lineText row))

end Grid

end SchemaSketch
