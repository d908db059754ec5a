import SchemaSketch.Proofs.Surface.Columns

/-!
What a text leaves of a row that is not blank. It stands on the row as it was written, and spares
what stands beside it, exactly if it finds no continuation mark in the wrong place.
-/
namespace SchemaSketch.Grid

open Text

def Bears (row : Array Char) (col : Nat) (s : List Char) : Prop :=
  ∀ (i : Nat) d, (spread s)[i]? = some d → row[col + i]? = some d

def Leads (row : Array Char) (k : Nat) : Prop :=
  row[k + 1]? = some continuation ∧ ∃ c, row[k]? = some c ∧ 1 < charWidth c

/-- Beside the text nothing is changed, except that a wide character cut by it may be blanked. -/
def Spares (row after : Array Char) (col : Nat) (s : List Char) : Prop :=
  ∀ k, k < col ∨ col + width s ≤ k →
    after[k]? = row[k]? ∨ k + 1 = col ∧ Leads row k ∧ after[k]? = some ' '

/-- Where the marks of a row may be when a text is written over it. A blank is not lost when it is
blanked. -/
structure Clear (row : Array Char) (col : Nat) (s : List Char) : Prop where
  /-- No mark lies under the text right behind a character of it. -/
  within : ∀ (i : Nat) d, (spread s)[i]? = some d → d ≠ continuation → d ≠ ' ' →
    i + 1 < width s → row[col + i + 1]? ≠ some continuation
  /-- If the text begins on a mark, a wide character or another mark stands in front of it. -/
  before : s ≠ [] → ∀ k c, k + 1 = col → row[col]? = some continuation → row[k]? = some c →
    c ≠ continuation → c ≠ ' ' → 1 < charWidth c

section Row

variable {row : Array Char} {col k : Nat} {s : List Char}

theorem length_spread (s : List Char) : (spread s).length = width s := by
  induction s with
  | nil => rfl
  | cons c s ih =>
    have hw := charWidth_pos c
    rw [spread, List.length_cons, List.length_append, List.length_replicate, ih, width]
    omega

theorem cellAt_add (ds : List Char) (i : Nat) : cellAt col ds ((col + i : Nat) : Int) = ds[i]? := by
  have hi : (((col + i : Nat) : Int) - col).toNat = i := by omega
  rw [cellAt, if_pos (by omega), hi]

/-- A cell under the text is blanked if a mark was behind it that lies under the text as well. -/
theorem getElem?_putAll_within {i : Nat} {d : Char} (hfit : col + width s ≤ row.size)
    (hd : (spread s)[i]? = some d) : (putAll row col (spread s))[col + i]? = some
      (if d ≠ continuation ∧ row[col + i + 1]? = some continuation ∧ i + 1 < width s then ' '
        else d) := by
  have hi := (List.getElem?_eq_some_iff.1 hd).1
  rw [length_spread] at hi
  have hrow : row[col + i]? = some row[col + i] := Array.getElem?_eq_getElem (by omega)
  have hnext : (cellAt col (spread s) ((col + i : Nat) + 1)).isSome ↔ i + 1 < width s := by
    rw [isSome_cellAt_iff, length_spread]
    omega
  rw [getElem?_putAll, hrow, Option.map_some, covered, cellAt_add, hd]
  simp only [Option.getD_some, hnext]

/-- Of the cells beside the text only the one in front of it can be blanked. -/
theorem getElem?_putAll_beside (row : Array Char) (h : k < col ∨ col + width s ≤ k) :
    (putAll row col (spread s))[k]? = row[k]?.map fun old =>
      if old ≠ continuation ∧ row[col]? = some continuation ∧ k + 1 = col ∧ s ≠ [] then ' '
      else old := by
  have hnone : cellAt col (spread s) k = none := by
    rw [cellAt_eq_none_iff, length_spread]
    omega
  have hpos : s ≠ [] ↔ 0 < width s := by
    rw [← length_spread]
    refine ⟨length_spread_pos, fun h hs => ?_⟩
    rw [hs] at h
    exact absurd h (Nat.lt_irrefl 0)
  have hnext : (cellAt col (spread s) (k + 1)).isSome ↔ k + 1 = col ∧ s ≠ [] := by
    rw [isSome_cellAt_iff, length_spread, hpos]
    omega
  rw [getElem?_putAll]
  congr 1
  funext old
  rw [covered, hnone, Option.getD_none]
  by_cases hk : k + 1 = col
  · simp only [hnext, hk]
  · simp only [hnext, hk, false_and, and_false]

theorem bears_putAll_iff (hfit : col + width s ≤ row.size) :
    Bears (putAll row col (spread s)) col s ↔ ∀ (i : Nat) d, (spread s)[i]? = some d →
      d ≠ continuation → d ≠ ' ' → i + 1 < width s → row[col + i + 1]? ≠ some continuation := by
  constructor
  · intro h i d hd hc hb hi hm
    have hput := h i d hd
    rw [getElem?_putAll_within hfit hd, if_pos ⟨hc, hm, hi⟩, Option.some_inj] at hput
    exact hb hput.symm
  · intro h i d hd
    rw [getElem?_putAll_within hfit hd, Option.some_inj]
    split
    · next hl =>
      by_contra hb
      exact h i d hd hl.1 (Ne.symm hb) hl.2.2 hl.2.1
    · rfl

theorem spares_putAll_iff : Spares row (putAll row col (spread s)) col s ↔
    (s ≠ [] → ∀ k c, k + 1 = col → row[col]? = some continuation → row[k]? = some c →
      c ≠ continuation → c ≠ ' ' → 1 < charWidth c) := by
  constructor
  · intro h hs k c hk hm hc hn hb
    have hlt : k < col := by omega
    have hput := getElem?_putAll_beside (s := s) row (Or.inl hlt)
    rw [hc, Option.map_some, if_pos ⟨hn, hm, hk, hs⟩] at hput
    obtain he | ⟨-, ⟨-, c', hc', hw⟩, -⟩ := h k (Or.inl hlt)
    · rw [hput, hc, Option.some_inj] at he
      exact absurd he.symm hb
    · rw [hc, Option.some_inj] at hc'
      exact hc' ▸ hw
  · intro h k hk
    have hput := getElem?_putAll_beside row hk
    cases hc : row[k]? with
    | none =>
      rw [hc, Option.map_none] at hput
      exact Or.inl hput
    | some c =>
      rw [hc, Option.map_some] at hput
      by_cases hl : c ≠ continuation ∧ row[col]? = some continuation ∧ k + 1 = col ∧ s ≠ []
      · obtain ⟨hn, hm, hkc, hs⟩ := hl
        rw [if_pos ⟨hn, hm, hkc, hs⟩] at hput
        by_cases hb : c = ' '
        · exact Or.inl (hb ▸ hput)
        · exact Or.inr ⟨hkc, ⟨hkc ▸ hm, c, hc, h hs k c hkc hm hc hn hb⟩, hput⟩
      · rw [if_neg hl] at hput
        exact Or.inl hput

end Row

/-- A text that has room in a row is what the row holds afterwards, and all beside it is spared,
exactly if the marks of the row are out of its way. Other rows are not touched. -/
theorem bears_write_iff {g : Grid} {r col : Nat} {row : Array Char} {s : List Char}
    (hrow : g.cells[r]? = some row) (hfit : col + width s ≤ row.size) :
    (∀ r' : Nat, r' ≠ r → (g.write r col s).cells[r']? = g.cells[r']?) ∧
      ∃ after, (g.write r col s).cells[r]? = some after ∧
        (Bears after col s ∧ Spares row after col s ↔ Clear row col s) := by
  refine ⟨fun r' hr => ?_, putAll row col (spread s), ?_, ?_⟩
  · have hr' : ¬ (r' : Int) = r := by omega
    rw [getElem?_write]
    cases g.cells[r']? <;> simp [hr']
  · rw [getElem?_write, hrow, Option.map_some, if_pos rfl]
  · rw [bears_putAll_iff hfit, spares_putAll_iff]
    exact ⟨fun h => ⟨h.1, h.2⟩, fun h => ⟨h.within, h.before⟩⟩

def wideRow : Array Char :=
  #[' ', '用', continuation, ' ', ' ', ' ', ' ', ' ']

/-- A wide character that begins on the mark of another one stands, and the other one is blanked. -/
theorem bears_shifted_wide_text :
    (run (blank 1 8) [.write 0 1 ['用']]).cells[0]? = some wideRow ∧
      2 + width ['語'] ≤ wideRow.size ∧ Clear wideRow 2 ['語'] ∧
      ∃ after, ((run (blank 1 8) [.write 0 1 ['用']]).write 0 2 ['語']).cells[0]? = some after ∧
        Bears after 2 ['語'] ∧ Spares wideRow after 2 ['語'] := by
  have hrow : (run (blank 1 8) [.write 0 1 ['用']]).cells[0]? = some wideRow := by decide +kernel
  have hfit : 2 + width ['語'] ≤ wideRow.size := by decide +kernel
  have hclear : Clear wideRow 2 ['語'] := by
    constructor
    · intro i d hd hc hb hi
      have hw : width ['語'] = 2 := by decide +kernel
      obtain rfl : i = 0 := by omega
      decide +kernel
    · intro _ k c hk _ hc _ _
      obtain rfl : k = 1 := by omega
      obtain rfl : '用' = c := Option.some_inj.1 hc
      decide +kernel
  obtain ⟨-, after, hafter, hiff⟩ := bears_write_iff hrow hfit
  exact ⟨hrow, hfit, hclear, after, hafter, hiff.2 hclear⟩

/-- A narrow text over a wide character of the same place loses its first character. -/
theorem not_bears_over_wide_text :
    (run (blank 1 8) [.write 0 1 ['用']]).cells[0]? = some wideRow ∧
      1 + width ['a', 'b'] ≤ wideRow.size ∧
      ∃ after, ((run (blank 1 8) [.write 0 1 ['用']]).write 0 1 ['a', 'b']).cells[0]? = some after ∧
        ¬ Bears after 1 ['a', 'b'] := by
  refine ⟨by decide +kernel, by decide +kernel, #[' ', ' ', 'b', ' ', ' ', ' ', ' ', ' '],
    by decide +kernel, fun h => ?_⟩
  have ha := h 0 'a' rfl
  exact absurd ha (by decide +kernel)

end SchemaSketch.Grid
