import SchemaSketch.Proofs.Safety.Slices
import SchemaSketch.Proofs.Surface.Overlay

/-!
A grid with a guard at every cell that is read or written. The number of its rows is kept beside
the rows, and only the two numbers of a size say where a cell may be looked up.
-/
namespace SchemaSketch.Guarded

open Text

def cell (row : Array Char) (col : Nat) : Except Breach Char :=
  match row[col]? with
  | some c => .ok c
  | none => .error .cell

def overwrite (row : Array Char) (col : Nat) (c : Char) : Except Breach (Array Char) :=
  if col < row.size then .ok (row.setIfInBounds col c) else .error .cell

def setCell (row : Array Char) (col : Nat) (c : Char) : Except Breach (Array Char) := do
  let old ← cell row col
  if old = Grid.continuation ∧ 0 < col then
    let left ← lower col
    let before ← cell row left
    if before ≠ Grid.continuation then
      let row ← overwrite row left ' '
      overwrite row col c
    else overwrite row col c
  else overwrite row col c

def set (rows : Nat) (g : Grid) (row col : Int) (c : Char) : Except Breach Grid :=
  if 0 ≤ row ∧ 0 ≤ col ∧ row < rows ∧ col < g.columns then
    match g.cells[row.toNat]? with
    | none => .error .cell
    | some cells => do
      let cells ← setCell cells col.toNat c
      .ok { g with cells := g.cells.setIfInBounds row.toNat cells }
  else .ok g

def write (rows : Nat) (g : Grid) (row col : Int) : List Char → Except Breach Grid
  | [] => .ok g
  | c :: s => do
    let g ← set rows g row col c
    let g ← (List.range' 1 (charWidth c - 1)).foldlM
      (fun g j => set rows g row (col + Int.ofNat j) Grid.continuation) g
    write rows g row (col + (charWidth c : Int)) s

/-- Steps that go through on what `g` makes of some states go through one after the other. -/
theorem foldlM_eq {α α' β : Type} {g : α → α'} {I : α → Prop} {f : α → β → α}
    {f' : α' → β → Except Breach α'}
    (hf : ∀ a b, I a → f' (g a) b = .ok (g (f a b)) ∧ I (f a b)) (bs : List β) {a : α} (h : I a) :
    bs.foldlM f' (g a) = .ok (g (bs.foldl f a)) ∧ I (bs.foldl f a) := by
  induction bs generalizing a with
  | nil => exact ⟨rfl, h⟩
  | cons b bs ih =>
    obtain ⟨hb, hi⟩ := hf a b h
    rw [List.foldlM_cons, List.foldl_cons, hb]
    exact ih hi

section Rows

variable {row : Array Char} {col : Nat}

theorem cell_eq {d : Char} (h : row[col]? = some d) : cell row col = .ok d := by
  rw [cell, h]

theorem overwrite_eq (h : col < row.size) (c : Char) :
    overwrite row col c = .ok (row.setIfInBounds col c) :=
  if_pos h

theorem setCell_eq (h : col < row.size) (c : Char) :
    setCell row col c = .ok (Grid.setCell row col c) := by
  have hl : col - 1 < row.size := by omega
  have ho := Array.getElem?_eq_getElem h
  have hb := Array.getElem?_eq_getElem hl
  rw [setCell, cell_eq ho, bind_ok, Grid.setCell, ho, hb]
  simp only
  by_cases hp : row[col] = Grid.continuation ∧ 0 < col
  · have hr : col < (row.setIfInBounds (col - 1) ' ').size := by simpa using h
    rw [if_pos hp, lower_eq hp.2, bind_ok, cell_eq hb, bind_ok]
    by_cases hn : row[col - 1] ≠ Grid.continuation
    · rw [if_pos hn, overwrite_eq hl, bind_ok, overwrite_eq hr, if_pos ⟨hp.1, hp.2, hn⟩]
    · rw [if_neg hn, overwrite_eq h, if_neg fun hq => hn hq.2.2]
  · rw [if_neg hp, overwrite_eq h, if_neg fun hq => hp ⟨hq.1, hq.2.1⟩]

end Rows

structure Sized (rows : Nat) (g : Grid) : Prop where
  rows_eq : g.rows = rows
  columns_eq : ∀ (r : Nat) (row : Array Char), g.cells[r]? = some row → row.size = g.columns

theorem sized_blank (rows columns : Nat) : Sized rows (.blank rows columns) := by
  refine ⟨by simp [Grid.rows, Grid.blank], fun r row h => ?_⟩
  rw [Grid.blank, Array.getElem?_replicate] at h
  split at h
  · cases h
    simp [Grid.blank]
  · cases h

theorem set_eq_cells (g : Grid) (row col : Int) (c : Char) :
    g.set row col c = ⟨g.columns, (g.set row col c).cells⟩ := by
  unfold Grid.set
  split <;> rfl

section Grids

variable {rows : Nat} {g : Grid}

theorem Sized.set (h : Sized rows g) (row col : Int) (c : Char) :
    Sized rows (g.set row col c) := by
  refine ⟨?_, fun r cells hr => ?_⟩
  · rw [← h.rows_eq, Grid.set]
    split
    · exact Array.size_modify
    · rfl
  · rw [Grid.getElem?_set, Option.map_eq_some_iff] at hr
    obtain ⟨old, ho, rfl⟩ := hr
    have hcolumns : (g.set row col c).columns = g.columns := by rw [set_eq_cells]
    rw [hcolumns, ← h.columns_eq r old ho]
    split
    · unfold Grid.putAt
      split
      · exact Grid.size_setCell _ _ _
      · rfl
    · rfl

/-- Nothing happens beside the grid. -/
theorem Sized.set_outside (h : Sized rows g) {row col : Int}
    (hp : ¬ (0 ≤ row ∧ 0 ≤ col ∧ row < rows ∧ col < g.columns)) (c : Char) :
    g.set row col c = g := by
  have hcells : (g.set row col c).cells = g.cells := by
    apply Array.ext_getElem?
    intro r
    rw [Grid.getElem?_set]
    cases hr : g.cells[r]? with
    | none => rfl
    | some old =>
      have hrows : r < rows := h.rows_eq ▸ (Array.getElem?_eq_some_iff.1 hr).1
      have hcolumns := h.columns_eq r old hr
      rw [Option.map_some]
      split
      · next he =>
        unfold Grid.putAt
        split
        · have hnone : old[col.toNat]? = none := Array.getElem?_eq_none (by omega)
          rw [Grid.setCell, hnone]
        · rfl
      · rfl
  rw [set_eq_cells, hcells]

theorem set_inside {row col : Int} (hr : 0 ≤ row) (hc : 0 ≤ col) (c : Char) {cells : Array Char}
    (h : g.cells[row.toNat]? = some cells) :
    g.set row col c =
      { g with cells := g.cells.setIfInBounds row.toNat (Grid.setCell cells col.toNat c) } := by
  rw [Grid.set, if_pos ⟨hr, hc⟩]
  congr 1
  apply Array.ext_getElem?
  intro r
  rw [Array.getElem?_modify, Array.getElem?_setIfInBounds]
  split
  · next he =>
    subst he
    obtain ⟨hr, rfl⟩ := Array.getElem?_eq_some_iff.1 h
    simp [hr]
  · rfl

/-- No character that is put into a cell is stopped, wherever the cell would be. -/
theorem Sized.set_eq (h : Sized rows g) (row col : Int) (c : Char) :
    Guarded.set rows g row col c = .ok (g.set row col c) := by
  by_cases hp : 0 ≤ row ∧ 0 ≤ col ∧ row < rows ∧ col < g.columns
  · have hrow : row.toNat < g.cells.size := by
      have : g.cells.size = rows := h.rows_eq
      omega
    have hcells := Array.getElem?_eq_getElem hrow
    have hcol : col.toNat < g.cells[row.toNat].size := by
      rw [h.columns_eq _ _ hcells]
      omega
    rw [Guarded.set, if_pos hp, hcells]
    simp only
    rw [setCell_eq hcol, bind_ok, set_inside hp.1 hp.2.1 c hcells]
  · rw [Guarded.set, if_neg hp, h.set_outside hp]

theorem setContinuations_eq (g : Grid) (row col : Int) (k count : Nat) :
    g.setContinuations row (col + Int.ofNat k) count =
      (List.range' k count).foldl
        (fun g j => g.set row (col + Int.ofNat j) Grid.continuation) g := by
  induction count generalizing g k with
  | zero => rfl
  | succ count ih =>
    rw [Grid.setContinuations, List.range'_succ, List.foldl_cons, ← ih]
    congr 1
    simp only [Int.ofNat_eq_natCast]
    omega

theorem Sized.continuations_eq (h : Sized rows g) (row col : Int) (count : Nat) :
    (List.range' 1 count).foldlM
        (fun g j => Guarded.set rows g row (col + Int.ofNat j) Grid.continuation) g =
      .ok (g.setContinuations row (col + 1) count) ∧
    Sized rows (g.setContinuations row (col + 1) count) := by
  have hs : g.setContinuations row (col + 1) count = _ := setContinuations_eq g row col 1 count
  rw [hs]
  exact foldlM_eq (g := id) (I := Sized rows)
    (fun g j hg => ⟨hg.set_eq row _ _, hg.set row _ _⟩) (List.range' 1 count) h

theorem Sized.write_eq (h : Sized rows g) (row col : Int) (s : List Char) :
    Guarded.write rows g row col s = .ok (g.write row col s) ∧ Sized rows (g.write row col s) := by
  induction s generalizing g col with
  | nil => exact ⟨rfl, h⟩
  | cons c s ih =>
    obtain ⟨hmarks, hr⟩ := (h.set row col c).continuations_eq row col (charWidth c - 1)
    rw [Guarded.write, h.set_eq, bind_ok, hmarks, bind_ok, Grid.write]
    exact ih hr _

end Grids

end SchemaSketch.Guarded
