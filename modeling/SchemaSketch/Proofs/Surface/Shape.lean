import SchemaSketch.Proofs.Safety.Cells
import SchemaSketch.Proofs.Surface.Renewal
import SchemaSketch.Proofs.Text.Languages

/-!
The shape of a text image. Whatever is drawn, the cells are a rectangle of the size that goes with
the surface. If no label breaks a line, the text has a line for each row and no others.
-/
namespace SchemaSketch

namespace Grid

open Text

variable {g : Grid} {row : Array Char} {c d : Char}

def Unbroken (g : Grid) : Prop :=
  ∀ (r : Nat) row, g.cells[r]? = some row → '\n' ∉ row

theorem mem_putAt {col : Int} (h : d ∈ putAt row col c) : d ∈ row ∨ d = c ∨ d = ' ' := by
  have hset {row : Array Char} {i : Nat} {b : Char} (h : d ∈ row.setIfInBounds i b) :
      d ∈ row ∨ d = b := Array.mem_or_eq_of_mem_setIfInBounds h
  unfold putAt at h
  split at h
  · unfold setCell at h
    split at h
    · split at h
      · obtain h | h := hset h
        · exact (hset h).imp_right Or.inr
        · exact Or.inr (Or.inl h)
      · exact (hset h).imp_right Or.inl
    · exact Or.inl h
  · exact Or.inl h

theorem Unbroken.set (h : g.Unbroken) (row col : Int) (hc : c ≠ '\n') :
    (g.set row col c).Unbroken := by
  intro r cells hr hfeed
  rw [getElem?_set, Option.map_eq_some_iff] at hr
  obtain ⟨old, ho, rfl⟩ := hr
  split at hfeed
  · obtain hf | hf | hf := mem_putAt hfeed
    · exact h r old ho hf
    · exact hc hf.symm
    · cases hf
  · exact h r old ho hfeed

theorem unbroken_blank (rows columns : Nat) : (blank rows columns).Unbroken := by
  intro r row hr hfeed
  obtain ⟨k, hk⟩ := Array.mem_iff_getElem?.1 hfeed
  rw [blank, Array.getElem?_replicate] at hr
  split at hr
  · cases hr
    rw [Array.getElem?_replicate] at hk
    split at hk <;> cases hk
  · cases hr

theorem lineText_subset (row : Array Char) : ∀ c ∈ lineText row, c ∈ row := by
  intro c hc
  have hf := (List.dropWhile_sublist isSpace).subset (List.mem_reverse.1 hc)
  exact Array.mem_toList_iff.1 (List.mem_of_mem_filter (List.mem_reverse.1 hf))

theorem length_lineText_le (row : Array Char) : (lineText row).length ≤ row.size := by
  have hd := length_dropWhile_le isSpace (row.toList.filter (· ≠ continuation)).reverse
  have hf := List.length_filter_le (fun c => decide (c ≠ continuation)) row.toList
  rw [lineText, trimEnd, List.length_reverse]
  rw [List.length_reverse] at hd
  rw [Array.length_toList] at hf
  exact hd.trans hf

theorem getLast?_lineText (row : Array Char) :
    ∀ c ∈ (lineText row).getLast?, isSpace c = false := by
  rw [lineText, trimEnd, List.getLast?_reverse]
  exact stops_dropWhile isSpace _

theorem toList_text (g : Grid) : g.text.toList = ['\n'].intercalate (g.cells.toList.map lineText) := by
  rw [text, String.toList_intercalate, List.map_map]
  simp only [Function.comp_def, String.toList_ofList]
  rfl

/-- The text has the rows as its lines. An empty grid has one empty line. -/
theorem splitOn_text (h : g.Unbroken) :
    g.text.toList.splitOn '\n' = if g.rows = 0 then [[]] else g.cells.toList.map lineText := by
  rw [toList_text]
  split
  · next hr => rw [Array.toList_eq_nil_iff.2 (Array.size_eq_zero_iff.1 hr)]; rfl
  · next hr =>
    refine List.splitOn_intercalate '\n' (fun line hl hfeed => ?_) fun hn => hr ?_
    · obtain ⟨row, hrow, rfl⟩ := List.mem_map.1 hl
      obtain ⟨r, hr⟩ := List.mem_iff_getElem?.1 hrow
      rw [Array.getElem?_toList] at hr
      exact h r row hr (lineText_subset row _ hfeed)
    · rw [List.map_eq_nil_iff, Array.toList_eq_nil_iff] at hn
      rw [rows, hn]
      rfl

end Grid

/-- A text with a line for each row, or with a single one if there are no rows. None is longer than
`columns` characters, and none has white space at its end. -/
structure Page (rows columns : Nat) (text : String) : Prop where
  length_eq : (text.toList.splitOn '\n').length = max 1 rows
  length_le : ∀ line ∈ text.toList.splitOn '\n', line.length ≤ columns
  trimmed : ∀ line ∈ text.toList.splitOn '\n', ∀ c ∈ line.getLast?, Text.isSpace c = false

theorem Guarded.Sized.page {rows : Nat} {g : Grid} (h : Sized rows g) (hu : g.Unbroken) :
    Page rows g.columns g.text := by
  have hrows : g.cells.toList.length = rows := h.rows_eq
  have hline {P : List Char → Prop} (hnil : P [])
      (hrow : ∀ row, row.size = g.columns → P (Grid.lineText row)) :
      ∀ line ∈ g.text.toList.splitOn '\n', P line := by
    rw [Grid.splitOn_text hu]
    intro line hl
    split at hl
    · rwa [List.mem_singleton.1 hl]
    · obtain ⟨row, hm, rfl⟩ := List.mem_map.1 hl
      obtain ⟨r, hr⟩ := List.mem_iff_getElem?.1 hm
      rw [Array.getElem?_toList] at hr
      exact hrow row (h.columns_eq r row hr)
  refine ⟨?_, hline (Nat.zero_le _) fun row hr => hr ▸ Grid.length_lineText_le row,
    hline nofun fun row _ => Grid.getLast?_lineText row⟩
  rw [Grid.splitOn_text hu, h.rows_eq]
  split
  · next hr => rw [hr]; rfl
  · rw [List.length_map, hrows]
    omega

namespace TextImage

theorem side_le (length cell : Float) : side length cell ≤ maxSide := by
  simp only [side]
  split
  · exact Nat.le_refl _
  · exact Nat.min_le_left _ _

structure Shaped (s : TextImage) : Prop where
  sized : Guarded.Sized (emptyGrid s.width s.height s.cellSize).rows s.grid
  columns_eq : s.grid.columns = (emptyGrid s.width s.height s.cellSize).columns
  unbroken : s.grid.Unbroken

section Steps

variable {s : TextImage}

theorem Shaped.le_maxSide (h : s.Shaped) : s.grid.rows ≤ maxSide ∧ s.grid.columns ≤ maxSide := by
  have hrows := h.sized.rows_eq.trans (Guarded.sized_blank _ _).rows_eq
  rw [hrows, h.columns_eq]
  exact ⟨side_le _ _, side_le _ _⟩

theorem shaped_resize (width height : Float) (s : TextImage) :
    Shaped (Surface.resize width height s) :=
  ⟨⟨rfl, (Guarded.sized_blank _ _).columns_eq⟩, rfl, Grid.unbroken_blank _ _⟩

theorem shaped_blank (width height cellSize : Float) : (blank width height cellSize).Shaped :=
  shaped_resize width height (blank width height cellSize)

theorem shaped_clear (s : TextImage) : Shaped (Surface.clear s) :=
  shaped_resize s.width s.height s

theorem Shaped.setCell (h : s.Shaped) (row col : Int) {c : Char} (hc : c ≠ '\n') :
    (s.setCell row col c).Shaped := by
  refine ⟨h.sized.set row col c, ?_, h.unbroken.set row col hc⟩
  have hcolumns : (s.grid.set row col c).columns = s.grid.columns := by rw [Guarded.set_eq_cells]
  exact hcolumns.trans h.columns_eq

theorem Shaped.put (h : s.Shaped) {m : Mark} (hm : '\n' ∉ ink m) : (Surface.put m s).Shaped :=
  put_induction (fun _ row col _ hc ht => ht.setCell row col (ne_of_mem_of_not_mem hc hm)) h

end Steps

end TextImage

end SchemaSketch
