import SchemaSketch.Surface.Grid

/-!
What is drawn over a row, cell by cell. A text covers a run of cells; a cell beside the run can be
blanked, and so can one inside it, where a continuation mark stood next to it before.
-/
namespace SchemaSketch.Grid

open Text

def spread : List Char → List Char
  | [] => []
  | c :: s => c :: (List.replicate (charWidth c - 1) continuation ++ spread s)

def putAt (row : Array Char) (col : Int) (c : Char) : Array Char :=
  if 0 ≤ col then setCell row col.toNat c else row

def putAll (row : Array Char) (col : Int) : List Char → Array Char
  | [] => row
  | d :: ds => putAll (putAt row col d) (col + 1) ds

theorem putAll_append (row : Array Char) (col : Int) (ds es : List Char) :
    putAll row col (ds ++ es) = putAll (putAll row col ds) (col + ds.length) es := by
  induction ds generalizing row col with
  | nil => simp [putAll]
  | cons d ds ih =>
    have hc : col + 1 + (ds.length : Int) = col + ((d :: ds).length : Int) := by
      simp only [List.length_cons]; omega
    rw [List.cons_append, putAll, ih, putAll, hc]

section Rows

variable (g : Grid) (row col : Int) (r : Nat)

theorem getElem?_set (c : Char) : (g.set row col c).cells[r]? =
    g.cells[r]?.map fun cells => if (r : Int) = row then putAt cells col c else cells := by
  unfold set putAt
  by_cases h : 0 ≤ row ∧ 0 ≤ col
  · have hr : row.toNat = r ↔ (r : Int) = row := by omega
    rw [if_pos h, Array.getElem?_modify]
    cases g.cells[r]? with
    | none => simp
    | some cells => by_cases hr' : (r : Int) = row <;> simp [hr, hr', h.2]
  · rw [if_neg h]
    cases g.cells[r]? with
    | none => rfl
    | some cells =>
      by_cases hr : (r : Int) = row
      · have hc : ¬ 0 ≤ col := fun hc => h ⟨by omega, hc⟩
        simp [hc]
      · simp [hr]

theorem getElem?_setContinuations (count : Nat) :
    (g.setContinuations row col count).cells[r]? = g.cells[r]?.map fun cells =>
      if (r : Int) = row then putAll cells col (List.replicate count continuation) else cells := by
  induction count generalizing g col with
  | zero => simp [setContinuations, putAll]
  | succ count ih =>
    rw [setContinuations, ih, getElem?_set, Option.map_map]
    congr 1
    funext cells
    by_cases hr : (r : Int) = row <;> simp [hr, List.replicate_succ, putAll]

theorem getElem?_write (s : List Char) : (g.write row col s).cells[r]? =
    g.cells[r]?.map fun cells => if (r : Int) = row then putAll cells col (spread s) else cells := by
  induction s generalizing g col with
  | nil => simp [write, spread, putAll]
  | cons c s ih =>
    have hw := charWidth_pos c
    have hc : col + 1 + ((charWidth c - 1 : Nat) : Int) = col + (charWidth c : Int) := by omega
    rw [write, ih, getElem?_setContinuations, getElem?_set, Option.map_map, Option.map_map]
    congr 1
    funext cells
    by_cases hr : (r : Int) = row
    · simp [hr, spread, putAll, putAll_append, hc]
    · simp [hr]

end Rows

def cellAt (col : Int) (ds : List Char) (k : Int) : Option Char :=
  if col ≤ k then ds[(k - col).toNat]? else none

theorem cellAt_nil (col k : Int) : cellAt col [] k = none := by
  simp [cellAt]

theorem cellAt_cons (col k : Int) (d : Char) (ds : List Char) :
    cellAt col (d :: ds) k = if k = col then some d else cellAt (col + 1) ds k := by
  unfold cellAt
  by_cases hk : k = col
  · simp [hk]
  by_cases hl : col ≤ k
  · have hn : (k - col).toNat = (k - (col + 1)).toNat + 1 := by omega
    have hl' : col + 1 ≤ k := by omega
    rw [if_pos hl, if_neg hk, if_pos hl', hn, List.getElem?_cons_succ]
  · have hl' : ¬ col + 1 ≤ k := by omega
    rw [if_neg hl, if_neg hk, if_neg hl']

def covered (row : Array Char) (col : Int) (ds : List Char) (k : Nat) (old : Char) : Char :=
  if (cellAt col ds k).getD old ≠ continuation ∧ row[k + 1]? = some continuation ∧
      (cellAt col ds (k + 1)).isSome then ' '
  else (cellAt col ds k).getD old

theorem cellAt_of_lt {col k : Int} (h : k < col) (ds : List Char) : cellAt col ds k = none :=
  if_neg (by omega)

theorem le_of_cellAt_isSome {col k : Int} {ds : List Char} (h : (cellAt col ds k).isSome) :
    col ≤ k := by
  unfold cellAt at h
  split at h
  · assumption
  · cases h

theorem covered_singleton (row : Array Char) (col : Int) (c : Char) (k : Nat) (old : Char) :
    covered row col [c] k old =
      if (k : Int) = col then c
      else if old ≠ continuation ∧ row[k + 1]? = some continuation ∧ (k : Int) + 1 = col then ' '
      else old := by
  unfold covered
  by_cases hk : (k : Int) = col
  · subst hk
    have hn : ¬ (k : Int) + 1 = k := by omega
    simp [cellAt_cons, cellAt_nil, hn]
  · by_cases hn : (k : Int) + 1 = col <;> simp [cellAt_cons, cellAt_nil, hk, hn]

theorem covered_singleton_of_ne {row : Array Char} {col : Int} {c old : Char} {k : Nat}
    (hk : (k : Int) ≠ col) (hn : (k : Int) + 1 ≠ col) : covered row col [c] k old = old := by
  simp [covered_singleton, hk, hn]

theorem size_setCell (row : Array Char) (col : Nat) (c : Char) :
    (setCell row col c).size = row.size := by
  unfold setCell
  split
  · split <;> simp
  · rfl

theorem getElem?_setCell (row : Array Char) (col k : Nat) (c : Char) :
    (setCell row col c)[k]? = row[k]?.map (covered row col [c] k) := by
  cases h : row[k]? with
  | none =>
    rw [Array.getElem?_eq_none_iff] at h
    rw [Array.getElem?_eq_none (by rwa [size_setCell])]
    rfl
  | some old =>
    have hk := (Array.getElem?_eq_some_iff.1 h).1
    rw [Option.map_some, covered_singleton]
    unfold setCell
    by_cases hs : col < row.size
    · have hs' : col - 1 < row.size := by omega
      have hc := Array.getElem?_eq_getElem hs
      have hb := Array.getElem?_eq_getElem hs'
      rw [hc, hb]
      by_cases he : k = col
      · subst he
        simp only [if_true]
        split <;> simp [hk]
      by_cases hn : k + 1 = col
      · subst hn
        obtain rfl : row[k] = old := by simpa [hk] using h
        have he' : ¬ (k : Int) = (k : Int) + 1 := by omega
        by_cases hm : row[k + 1] = continuation <;> by_cases ho : row[k] = continuation <;>
          simp [hc, hk, hm, ho, he']
      · have hc' : ¬ col = k := by omega
        have hd : ¬ (0 < col ∧ col - 1 = k) := by omega
        rw [← covered_singleton, covered_singleton_of_ne (by omega) (by omega)]
        dsimp only
        split
        · next hp =>
          have hd : ¬ col - 1 = k := by omega
          simp [hc', hd, h]
        · simp [hc', h]
    · have hc : row[col]? = none := Array.getElem?_eq_none (by omega)
      have he : ¬ (k : Int) = col := by omega
      have hn : ¬ (row[k + 1]? = some continuation ∧ (k : Int) + 1 = col) := by
        intro hn
        have hk' := (Array.getElem?_eq_some_iff.1 hn.1).1
        omega
      simp [hc, he, hn, h]

theorem getElem?_putAt (row : Array Char) (col : Int) (c : Char) (k : Nat) :
    (putAt row col c)[k]? = row[k]?.map (covered row col [c] k) := by
  unfold putAt
  by_cases hc : 0 ≤ col
  · rw [if_pos hc, getElem?_setCell, Int.toNat_of_nonneg hc]
  · rw [if_neg hc]
    cases row[k]? with
    | none => rfl
    | some old => rw [Option.map_some, covered_singleton_of_ne (by omega) (by omega)]

theorem getElem?_putAt_of_lt {row : Array Char} {col : Int} {c : Char} {k : Nat}
    (h : col < k) : (putAt row col c)[k]? = row[k]? := by
  rw [getElem?_putAt]
  cases row[k]? with
  | none => rfl
  | some old => rw [Option.map_some, covered_singleton_of_ne (by omega) (by omega)]

theorem covered_cons (row : Array Char) (col : Int) (d : Char) (ds : List Char) (k : Nat)
    (old : Char) : covered (putAt row col d) (col + 1) ds k (covered row col [d] k old) =
      covered row col (d :: ds) k old := by
  rw [covered_singleton]
  unfold covered
  by_cases hk : (k : Int) = col
  · -- The cell that is put.
    subst hk
    have hn : ¬ (k : Int) + 1 = k := by omega
    have hp : (putAt row k d)[k + 1]? = row[k + 1]? := getElem?_putAt_of_lt (by omega)
    have hc : cellAt (k + 1) ds k = none := cellAt_of_lt (by omega) ds
    simp [cellAt_cons, hn, hc, hp]
  by_cases hn : (k : Int) + 1 = col
  · -- The cell before it, which the later ones do not touch.
    subst hn
    have hc : cellAt ((k : Int) + 1 + 1) ds k = none := cellAt_of_lt (by omega) ds
    have hc' : cellAt ((k : Int) + 1 + 1) ds ((k : Int) + 1) = none := cellAt_of_lt (by omega) ds
    simp [cellAt_cons, hk, hc, hc']
  · have hp : (cellAt (col + 1) ds (k + 1)).isSome →
        (putAt row col d)[k + 1]? = row[k + 1]? := by
      intro hs
      have hl := le_of_cellAt_isSome hs
      exact getElem?_putAt_of_lt (by omega)
    by_cases hs : (cellAt (col + 1) ds (k + 1)).isSome
    · simp [cellAt_cons, hk, hn, hp hs]
    · simp [cellAt_cons, hk, hn, hs]

theorem getElem?_putAll (row : Array Char) (col : Int) (ds : List Char) (k : Nat) :
    (putAll row col ds)[k]? = row[k]?.map (covered row col ds k) := by
  induction ds generalizing row col with
  | nil =>
    cases h : row[k]? <;> simp [putAll, covered, cellAt_nil, h]
  | cons d ds ih =>
    rw [putAll, ih, getElem?_putAt, Option.map_map]
    congr 1
    funext old
    exact covered_cons row col d ds k old

/-- Marks stay where they were or where they are put; what is blanked is no mark. -/
theorem covered_eq_continuation_iff {row : Array Char} {col : Int} {ds : List Char} {k : Nat}
    {old : Char} : covered row col ds k old = continuation ↔
      (cellAt col ds k).getD old = continuation := by
  have hb : ¬ ' ' = continuation := by decide
  unfold covered
  by_cases hc : (cellAt col ds k).getD old = continuation
  · simp [hc]
  · simp only [hc, iff_false]
    split
    · exact hb
    · exact hc

theorem isSome_cellAt_iff {col k : Int} {ds : List Char} :
    (cellAt col ds k).isSome ↔ col ≤ k ∧ k < col + ds.length := by
  unfold cellAt
  by_cases hk : col ≤ k
  · simp only [hk, if_true, isSome_getElem?, true_and]
    omega
  · simp [hk]

theorem cellAt_eq_none_iff {col k : Int} {ds : List Char} :
    cellAt col ds k = none ↔ ¬ (col ≤ k ∧ k < col + ds.length) := by
  rw [← isSome_cellAt_iff, Option.not_isSome_iff_eq_none]

theorem getElem?_putAll_mark {row : Array Char} {col : Int} {ds : List Char} {k : Nat}
    {old : Char} (ho : row[k]? = some old) (h : (cellAt col ds k).getD old = continuation) :
    (putAll row col ds)[k]? = some continuation := by
  rw [getElem?_putAll, ho, Option.map_some, covered_eq_continuation_iff.2 h]

section Spread

variable {col j k : Int} {c : Char} {s : List Char}

theorem cellAt_replicate_append (n : Nat) (d : Char) (ds : List Char) :
    cellAt col (List.replicate n d ++ ds) k =
      if col ≤ k ∧ k < col + n then some d else cellAt (col + n) ds k := by
  induction n generalizing col with
  | zero =>
    have h : ¬ (col ≤ k ∧ k < col + ((0 : Nat) : Int)) := by omega
    rw [if_neg h]
    simp
  | succ n ih =>
    rw [List.replicate_succ, List.cons_append, cellAt_cons, ih]
    have hc : col + 1 + (n : Int) = col + ((n + 1 : Nat) : Int) := by omega
    rw [hc]
    by_cases hk : k = col
    · have h : col ≤ k ∧ k < col + ((n + 1 : Nat) : Int) := by omega
      rw [if_pos hk, if_pos h]
    · have h : (col + 1 ≤ k ∧ k < col + ((n + 1 : Nat) : Int)) ↔
          (col ≤ k ∧ k < col + ((n + 1 : Nat) : Int)) := by omega
      rw [if_neg hk]
      simp only [h]

theorem cellAt_spread_cons (c : Char) (s : List Char) : cellAt col (spread (c :: s)) k =
    if k = col then some c
    else if col < k ∧ k < col + charWidth c then some continuation
    else cellAt (col + charWidth c) (spread s) k := by
  have hw := charWidth_pos c
  have hc : col + 1 + ((charWidth c - 1 : Nat) : Int) = col + charWidth c := by omega
  have hl : col + 1 ≤ k ↔ col < k := by omega
  rw [spread, cellAt_cons, cellAt_replicate_append, hc]
  simp only [hl]

theorem charWidth_continuation : charWidth continuation = 1 := by
  decide

theorem cellAt_spread_of_wide (hj : cellAt col (spread s) j = some c) (hjk : j < k)
    (hk : k < j + charWidth c) : cellAt col (spread s) k = some continuation := by
  induction s generalizing col with
  | nil => simp [spread, cellAt_nil] at hj
  | cons d s ih =>
    rw [cellAt_spread_cons] at hj ⊢
    split at hj
    · next h =>
      obtain rfl : d = c := by simpa using hj
      rw [if_neg (by omega), if_pos (by omega)]
    split at hj
    · obtain rfl : continuation = c := by simpa using hj
      rw [charWidth_continuation] at hk
      omega
    · have hl := le_of_cellAt_isSome (Option.isSome_of_eq_some hj)
      have hw := charWidth_pos d
      rw [if_neg (by omega), if_neg (by omega)]
      exact ih hj

theorem wide_of_cellAt_spread (hs : continuation ∉ s)
    (hk : cellAt col (spread s) k = some continuation) :
    ∃ j c, j < k ∧ cellAt col (spread s) j = some c ∧ k < j + charWidth c := by
  induction s generalizing col with
  | nil => simp [spread, cellAt_nil] at hk
  | cons d s ih =>
    rw [List.mem_cons, not_or] at hs
    rw [cellAt_spread_cons] at hk
    split at hk
    · exact absurd (by simpa using hk.symm) hs.1
    split at hk
    · next h => exact ⟨col, d, h.1, by simp [cellAt_spread_cons], h.2⟩
    · obtain ⟨j, c, hjk, hj, hw⟩ := ih hs.2 hk
      have hl := le_of_cellAt_isSome (Option.isSome_of_eq_some hj)
      have hd := charWidth_pos d
      refine ⟨j, c, hjk, ?_, hw⟩
      rw [cellAt_spread_cons, if_neg (by omega), if_neg (by omega)]
      exact hj

theorem cellAt_spread_first (hs : continuation ∉ s) :
    cellAt col (spread s) col ≠ some continuation := by
  intro h
  obtain ⟨j, c, hj, hc, -⟩ := wide_of_cellAt_spread hs h
  have hl := le_of_cellAt_isSome (Option.isSome_of_eq_some hc)
  omega

end Spread

end SchemaSketch.Grid
