import SchemaSketch.Proofs.Surface.Writing
import SchemaSketch.Proofs.Text.Separate
import SchemaSketch.Surface.TextImage

/-!
Where a label stands. It begins half its width to the left of the cell of its position, and from
there it takes the columns of its characters one by one. So it stands around that cell exactly if
its characters together are as wide as the text they form, or one column wider if that is even.
-/
namespace SchemaSketch

open Text

namespace Grid

/-- What is written behind a text begins as many columns on as its characters take. -/
theorem write_append (g : Grid) (row col : Int) (s t : List Char) :
    g.write row col (s ++ t) = (g.write row col s).write row (col + (width s : Int)) t := by
  induction s generalizing g col with
  | nil => simp [write, width]
  | cons c s ih =>
    have hcol : col + (charWidth c : Int) + (width s : Int) = col + (width (c :: s) : Int) := by
      rw [width, Int.natCast_add, Int.add_assoc]
    rw [List.cons_append, write, ih, write, hcol]

/-- A text takes a run of cells of a row. Each of them holds what the text has there, and nothing
beside them is changed; but a cell may be blanked, if a mark was behind it. -/
structure Takes (row after : Array Char) (first : Nat) (s : List Char) : Prop where
  within : ∀ (i : Nat) d, (spread s)[i]? = some d → after[first + i]? = some d ∨
    row[first + i + 1]? = some continuation ∧ after[first + i]? = some ' '
  beside : ∀ k, k < first ∨ first + width s ≤ k → after[k]? = row[k]? ∨
    k + 1 = first ∧ row[first]? = some continuation ∧ after[k]? = some ' '

theorem takes_putAll {row : Array Char} {first : Nat} {s : List Char}
    (hfit : first + width s ≤ row.size) : Takes row (putAll row first (spread s)) first s := by
  constructor
  · intro i d hd
    rw [getElem?_putAll_within hfit hd]
    split
    · next hm => exact Or.inr ⟨hm.2.1, rfl⟩
    · exact Or.inl rfl
  · intro k hk
    rw [getElem?_putAll_beside row hk]
    cases row[k]? with
    | none => exact Or.inl rfl
    | some old =>
      rw [Option.map_some]
      split
      · next hm => exact Or.inr ⟨hm.2.2.1, hm.2.1, rfl⟩
      · exact Or.inl rfl

theorem takes_write {g : Grid} {r first : Nat} {row : Array Char} {s : List Char}
    (hrow : g.cells[r]? = some row) (hfit : first + width s ≤ row.size) :
    ∃ after, (g.write r first s).cells[r]? = some after ∧ Takes row after first s := by
  refine ⟨_, ?_, takes_putAll hfit⟩
  rw [getElem?_write, hrow, Option.map_some, if_pos rfl]

end Grid

namespace TextImage

open Grid (Takes)

/-- The columns from `first` up to `last` lie around a column: as many are before it as there are
from it on, or one less or more. -/
structure Centered (col first last : Nat) : Prop where
  before : col - first ≤ last - col + 1
  behind : last - col ≤ col - first + 1

theorem centered_iff {col : Nat} {s : List Char} (h : displayWidth s / 2 ≤ col) :
    Centered col (col - displayWidth s / 2) (col - displayWidth s / 2 + Grid.width s) ↔
      Separate s ∨ displayWidth s % 2 = 0 ∧ Grid.width s = displayWidth s + 1 := by
  have hle := displayWidth_le s
  rw [← displayWidth_eq_width_iff]
  constructor
  · rintro ⟨-, hbehind⟩
    omega
  · intro hs
    constructor <;> omega

/-- The columns that a label advances over are those it is centered by exactly if it is separate.
Inside the grid it begins half its width to the left of its cell, whatever it is, and takes the
columns of its characters. -/
theorem drawText_centered_iff (label : String) :
    (∀ (g : Grid) (row col : Int) (rest : List Char), g.write row col (label.toList ++ rest) =
      (g.write row col label.toList).write row (col + (Grid.width label.toList : Int)) rest) ∧
    (Grid.width label.toList = displayWidth label.toList ↔ Separate label.toList) ∧
    ∀ (image : TextImage) (position : Point) (r col : Nat) (row : Array Char),
      (image.toPixels position).isFinite = true →
      image.cellOf (image.toPixels position) = ((r : Int), (col : Int)) →
      image.grid.cells[r]? = some row → displayWidth label.toList / 2 ≤ col →
      col - displayWidth label.toList / 2 + Grid.width label.toList ≤ row.size →
      (∃ after, (image.drawText position label).grid.cells[r]? = some after ∧
        Takes row after (col - displayWidth label.toList / 2) label.toList) ∧
      (Centered col (col - displayWidth label.toList / 2)
          (col - displayWidth label.toList / 2 + Grid.width label.toList) ↔
        Separate label.toList ∨ displayWidth label.toList % 2 = 0 ∧
          Grid.width label.toList = displayWidth label.toList + 1) := by
  refine ⟨fun g row col rest => Grid.write_append g row col _ rest, ?_, ?_⟩
  · rw [eq_comm]
    exact displayWidth_eq_width_iff _
  · intro image position r col row hfinite hcell hrow hleft hfit
    refine ⟨?_, centered_iff hleft⟩
    have hfirst : (col : Int) - ((displayWidth label.toList / 2 : Nat) : Int) =
        ((col - displayWidth label.toList / 2 : Nat) : Int) := (Int.ofNat_sub hleft).symm
    have hdraw : (image.drawText position label).grid =
        image.grid.write r (col - displayWidth label.toList / 2 : Nat) label.toList := by
      rw [drawText, if_pos hfinite, hcell, ← hfirst]
    rw [hdraw]
    exact Grid.takes_write hrow hfit

def oneRow : TextImage :=
  blank 80.0 20.0 10.0

/-- An umbrella that a selector shows as an emoji takes the columns that it is counted with. -/
theorem drawText_centered_of_umbrella :
    (oneRow.toPixels ⟨35.0, 10.0⟩).isFinite = true ∧
    oneRow.cellOf (oneRow.toPixels ⟨35.0, 10.0⟩) = (0, 3) ∧
    Separate "a☂\uFE0F用".toList ∧
    (∃ after, (oneRow.drawText ⟨35.0, 10.0⟩ "a☂\uFE0F用").grid.cells[0]? = some after ∧
      Takes (Array.replicate 8 ' ') after 1 "a☂\uFE0F用".toList) ∧
    Centered 3 1 6 := by
  have hfinite : (oneRow.toPixels ⟨35.0, 10.0⟩).isFinite = true := by decide +kernel
  have hcell : oneRow.cellOf (oneRow.toPixels ⟨35.0, 10.0⟩) = (0, 3) := by
    decide +kernel
  have hrow : oneRow.grid.cells[0]? = some (Array.replicate 8 ' ') := by decide +kernel
  have hwidth : Grid.width "a☂\uFE0F用".toList = 5 := by decide +kernel
  have hdisplay : displayWidth "a☂\uFE0F用".toList = 5 := by decide +kernel
  obtain ⟨-, hseparate, hdraw⟩ := drawText_centered_iff "a☂\uFE0F用"
  have hs := hseparate.1 (hwidth.trans hdisplay.symm)
  rw [hwidth, hdisplay] at hdraw
  obtain ⟨htakes, hcentered⟩ := hdraw oneRow _ 0 3 _ hfinite hcell hrow (by decide) (by decide)
  exact ⟨hfinite, hcell, hs, htakes, hcentered.2 (Or.inl hs)⟩

/-- An accent is given a column of its own, which the label is not centered by: no column is before
the cell and two are from it on. What is drawn behind the label closes up with it. -/
theorem not_centered_of_accent :
    Grid.width "e\u0301".toList ≠ displayWidth "e\u0301".toList ∧
    oneRow.cellOf (oneRow.toPixels ⟨35.0, 10.0⟩) = (0, 3) ∧
    (oneRow.drawText ⟨35.0, 10.0⟩ "e\u0301").grid.cells[0]? =
      some #[' ', ' ', ' ', 'e', '\u0301', ' ', ' ', ' '] ∧
    ¬ Centered 3 3 5 ∧
    ((oneRow.drawText ⟨35.0, 10.0⟩ "e\u0301").drawText ⟨55.0, 10.0⟩ "z").grid.text =
      "   e\u0301z" := by
  refine ⟨by decide +kernel, by decide +kernel, by decide +kernel, fun h => ?_, by decide +kernel⟩
  exact absurd h.behind (by decide)

end TextImage

end SchemaSketch
