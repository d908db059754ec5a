import Mathlib.Tactic.ByContra
import SchemaSketch.Proofs.Surface.Overlay

/-!
The columns of a grid. A row is aligned if every character has its continuation marks behind it
and there are no others; what is drawn keeps a row aligned exactly if it fits.
-/
namespace SchemaSketch.Grid

open Text

structure AlignedRow (row : Array Char) : Prop where
  /-- Every mark belongs to a character before it. -/
  led : ∀ k, row[k]? = some continuation →
    ∃ j c, j < k ∧ row[j]? = some c ∧ k < j + charWidth c
  /-- Every character has its marks, as far as the row goes. -/
  followed : ∀ j k c d, row[j]? = some c → j < k → k < j + charWidth c → row[k]? = some d →
    d = continuation

structure Fits (row : Array Char) (col : Int) (s : List Char) : Prop where
  /-- No character is cut at the left edge. -/
  edge : row ≠ #[] → cellAt col (spread s) 0 ≠ some continuation
  /-- No wide character has its second cell on a mark: it would be blanked itself. -/
  second : ∀ (k : Nat) c, c ≠ continuation → cellAt col (spread s) k = some c →
    cellAt col (spread s) (k + 1) = some continuation → row[k + 1]? ≠ some continuation
  /-- The text does not begin on the second mark of a character, or on a later one. -/
  first : s ≠ [] → ∀ k : Nat, (k : Int) + 1 = col → row[k]? = some continuation →
    row[k + 1]? ≠ some continuation
  /-- The text does not end in the middle of a character. -/
  behind : s ≠ [] → ∀ k : Nat, (k : Int) = col + (spread s).length → row[k]? ≠ some continuation

section Row

variable {row : Array Char} {col : Int} {s : List Char} {c : Char} {k : Nat}

theorem covered_of_none {old : Char} (h : cellAt col (spread s) k = none)
    (h' : cellAt col (spread s) (k + 1) = none) : covered row col (spread s) k old = old := by
  simp [covered, h, h']

/-- A wide character that is there afterwards was put or kept, and not blanked. -/
theorem wide_of_covered {old : Char} (hc : covered row col (spread s) k old = c)
    (hw : 1 < charWidth c) : (cellAt col (spread s) k).getD old = c ∧
      ¬ (row[k + 1]? = some continuation ∧ (cellAt col (spread s) (k + 1)).isSome) := by
  have hb : charWidth ' ' = 1 := by decide
  unfold covered at hc
  split at hc
  · rw [← hc, hb] at hw
    omega
  · next h =>
    refine ⟨hc, fun h' => h ⟨fun hm => ?_, h'⟩⟩
    rw [← hc] at hw
    rw [hm, charWidth_continuation] at hw
    omega

theorem AlignedRow.mark (h : AlignedRow row) {d : Char} {j m : Nat} (hj : row[j]? = some c)
    (hjm : j < m) (hw : m < j + charWidth c) (hk : row[k]? = some d) (hmk : m ≤ k) :
    row[m]? = some continuation := by
  have hl := (Array.getElem?_eq_some_iff.1 hk).1
  have hm : row[m]? = some row[m] := Array.getElem?_eq_getElem (by omega)
  rw [hm, h.followed j m c row[m] hj hjm hw hm]

theorem length_spread_pos (hn : s ≠ []) : 0 < (spread s).length := by
  cases s with
  | nil => exact absurd rfl hn
  | cons c s => simp [spread]

/-- A mark of the text stands behind its character, unless that is cut or blanked. -/
theorem Fits.led_of_put (hf : Fits row col s) (hs : continuation ∉ s) {old : Char}
    (ho : row[k]? = some old) (hk : cellAt col (spread s) k = some continuation) :
    ∃ j c, j < k ∧ (putAll row col (spread s))[j]? = some c ∧ k < j + charWidth c := by
  obtain ⟨j, c, hjk, hj, hw⟩ := wide_of_cellAt_spread hs hk
  have hj0 : 0 ≤ j := by
    by_contra hj0
    refine hf.edge (fun hr => ?_) (cellAt_spread_of_wide hj (by omega) (by omega))
    simp [hr] at ho
  obtain ⟨j, rfl⟩ := Int.eq_ofNat_of_zero_le hj0
  have hl := (Array.getElem?_eq_some_iff.1 ho).1
  have hd : row[j]? = some row[j] := Array.getElem?_eq_getElem (by omega)
  have hc : c ≠ continuation := by
    intro hc
    rw [hc, charWidth_continuation] at hw
    omega
  have hm := cellAt_spread_of_wide (k := (j : Int) + 1) hj (by omega) (by omega)
  have hr := hf.second j c hc hj hm
  refine ⟨j, c, by omega, ?_, by omega⟩
  rw [getElem?_putAll, hd, Option.map_some]
  simp [covered, hj, hr]

/-- A mark that is kept stands behind its character, which is kept too. -/
theorem Fits.led_of_kept (hf : Fits row col s) (h : AlignedRow row) (hn : s ≠ [])
    (ho : row[k]? = some continuation) (hk : cellAt col (spread s) k = none) :
    ∃ j c, j < k ∧ (putAll row col (spread s))[j]? = some c ∧ k < j + charWidth c := by
  obtain ⟨j, c, hjk, hj, hw⟩ := h.led k ho
  have hlen := length_spread_pos hn
  rw [cellAt_eq_none_iff] at hk
  have hout : (k : Int) < col ∨ col + (spread s).length ≤ j := by
    by_contra hout
    obtain ⟨m, hm⟩ := Int.eq_ofNat_of_zero_le (show 0 ≤ col + (spread s).length by omega)
    exact hf.behind hn m hm.symm (h.mark hj (by omega) (by omega) ho (by omega))
  have hnone (m : Int) (hjm : j ≤ m) (hmk : m ≤ k) : cellAt col (spread s) m = none := by
    rw [cellAt_eq_none_iff]
    omega
  refine ⟨j, c, hjk, ?_, hw⟩
  rw [getElem?_putAll, hj, Option.map_some,
    covered_of_none (hnone j (by omega) (by omega)) (hnone (j + 1) (by omega) (by omega))]

/-- A text that covers a mark of a character and not the character covers its first mark too, so
that the character is blanked. -/
theorem Fits.covers_next (hf : Fits row col s) (h : AlignedRow row) {d : Char} {j : Nat}
    (hj : row[j]? = some c) (hjk : j < k) (hw : k < j + charWidth c) (hd : row[k]? = some d)
    (hput : (cellAt col (spread s) k).isSome) (hkept : cellAt col (spread s) j = none) :
    row[j + 1]? = some continuation ∧ (cellAt col (spread s) (j + 1)).isSome := by
  have hout := cellAt_eq_none_iff.1 hkept
  rw [isSome_cellAt_iff] at hput
  have hn : s ≠ [] := by
    intro hn
    rw [hn, spread, List.length_nil] at hput
    omega
  refine ⟨h.mark hj (by omega) (by omega) hd (by omega), isSome_cellAt_iff.2 ?_⟩
  by_contra hne
  obtain ⟨p, hp⟩ := Int.eq_ofNat_of_zero_le (show 0 ≤ col - 1 by omega)
  have hp1 := h.mark hj (m := p) (by omega) (by omega) hd (by omega)
  have hp2 := h.mark hj (m := p + 1) (by omega) (by omega) hd (by omega)
  exact hf.first hn p (by omega) hp1 hp2

theorem Fits.aligned (hf : Fits row col s) (h : AlignedRow row) (hs : continuation ∉ s) :
    AlignedRow (putAll row col (spread s)) := by
  by_cases hn : s = []
  · subst hn
    exact h
  constructor
  · intro k hk
    rw [getElem?_putAll] at hk
    obtain ⟨old, ho, hc⟩ := Option.map_eq_some_iff.1 hk
    rw [covered_eq_continuation_iff] at hc
    cases hcell : cellAt col (spread s) k with
    | some d =>
      obtain rfl : d = continuation := by simpa [hcell] using hc
      exact hf.led_of_put hs ho hcell
    | none =>
      obtain rfl : old = continuation := by simpa [hcell] using hc
      exact hf.led_of_kept h hn ho hcell
  · intro j k c d hj hjk hw hk
    rw [getElem?_putAll] at hj hk
    obtain ⟨oj, hoj, hcj⟩ := Option.map_eq_some_iff.1 hj
    obtain ⟨ok, hok, hck⟩ := Option.map_eq_some_iff.1 hk
    obtain ⟨hcj, hb⟩ := wide_of_covered hcj (by omega)
    rw [← hck, covered_eq_continuation_iff]
    cases hcell : cellAt col (spread s) j with
    | some c' =>
      obtain rfl : c' = c := by simpa [hcell] using hcj
      rw [cellAt_spread_of_wide (k := (k : Int)) hcell (by omega) (by omega)]
      rfl
    | none =>
      obtain rfl : oj = c := by simpa [hcell] using hcj
      cases hcell' : cellAt col (spread s) k with
      | none => exact h.followed j k oj ok hoj hjk hw hok
      | some d' =>
        exact absurd (hf.covers_next h hoj hjk hw hok (Option.isSome_of_eq_some hcell') hcell) hb

theorem ne_continuation_of_first (hs : continuation ∉ s) (hn : s ≠ []) (hk : (k : Int) = col)
    {d : Char} (hd : (putAll row col (spread s))[k]? = some d) : d ≠ continuation := by
  have hlen := length_spread_pos hn
  rw [getElem?_putAll] at hd
  obtain ⟨old, -, rfl⟩ := Option.map_eq_some_iff.1 hd
  rw [Ne, covered_eq_continuation_iff]
  have hsome : (cellAt col (spread s) k).isSome := isSome_cellAt_iff.2 (by omega)
  obtain ⟨c, hc⟩ := Option.isSome_iff_exists.1 hsome
  intro h
  rw [hc, Option.getD_some] at h
  rw [hk, h] at hc
  exact cellAt_spread_first hs hc

theorem Fits.of_aligned (h : AlignedRow row) (hs : continuation ∉ s)
    (ha : AlignedRow (putAll row col (spread s))) : Fits row col s := by
  have hspace : charWidth ' ' = 1 := by decide
  constructor
  · -- A mark in the first column would stand behind nothing.
    intro hr he
    have h0 : 0 < row.size := Array.size_pos_iff.2 hr
    have hm := getElem?_putAll_mark (k := 0) (Array.getElem?_eq_getElem h0) (by
      rw [Int.natCast_zero, he, Option.getD_some])
    obtain ⟨j, c, hj, -, -⟩ := ha.led 0 hm
    omega
  · -- The character would be blanked and leave its mark.
    intro k c hc hk hk' hr
    have hl := (Array.getElem?_eq_some_iff.1 hr).1
    have hb : (putAll row col (spread s))[k]? = some ' ' := by
      rw [getElem?_putAll, Array.getElem?_eq_getElem (by omega), Option.map_some, Option.some_inj]
      simp [covered, hk, hc, hr, hk']
    have hm := getElem?_putAll_mark hr (by rw [Int.natCast_succ, hk', Option.getD_some])
    obtain ⟨j, c', hj, hjc, hw⟩ := ha.led (k + 1) hm
    by_cases hjk : j = k
    · subst hjk
      rw [hb, Option.some_inj] at hjc
      rw [← hjc, hspace] at hw
      omega
    · have hn := ha.followed j k c' ' ' hjc (by omega) (by omega) hb
      exact absurd hn (by decide)
  · -- The character before the text would lose its second mark and keep its first.
    intro hn k hk hk1 hk2
    obtain ⟨j, c, hj, hjc, hw⟩ := h.led (k + 1) hk2
    have hjk : j ≠ k := by
      intro hjk
      rw [hjk, hk1, Option.some_inj] at hjc
      rw [← hjc, charWidth_continuation] at hw
      omega
    have hkept : (putAll row col (spread s))[j]? = some c := by
      rw [getElem?_putAll, hjc, Option.map_some,
        covered_of_none (cellAt_of_lt (by omega) _) (cellAt_of_lt (by omega) _)]
    have hd := getElem?_putAll row col (spread s) (k + 1)
    rw [hk2, Option.map_some] at hd
    exact ne_continuation_of_first hs hn hk hd (ha.followed j (k + 1) c _ hkept hj hw hd)
  · -- The mark behind the text would be left over.
    intro hn k hk hk'
    have hlen := length_spread_pos hn
    have hout : cellAt col (spread s) k = none := cellAt_eq_none_iff.2 (by omega)
    have hm := getElem?_putAll_mark hk' (by rw [hout, Option.getD_none])
    obtain ⟨j, c, hj, hjc, hw⟩ := ha.led k hm
    by_cases hjcol : col ≤ j
    · rw [getElem?_putAll] at hjc
      obtain ⟨old, -, hc⟩ := Option.map_eq_some_iff.1 hjc
      obtain ⟨hc, -⟩ := wide_of_covered hc (by omega)
      have hsome : (cellAt col (spread s) j).isSome := isSome_cellAt_iff.2 (by omega)
      obtain ⟨d, hd⟩ := Option.isSome_iff_exists.1 hsome
      obtain rfl : d = c := by simpa [hd] using hc
      rw [cellAt_spread_of_wide (k := (k : Int)) hd (by omega) (by omega)] at hout
      cases hout
    · obtain ⟨p, hp⟩ := Int.eq_ofNat_of_zero_le (show 0 ≤ col by omega)
      have hd := ha.mark hjc (m := p) (by omega) (by omega) hm (by omega)
      exact ne_continuation_of_first hs hn hp.symm hd rfl

theorem aligned_putAll_iff (h : AlignedRow row) (hs : continuation ∉ s) :
    AlignedRow (putAll row col (spread s)) ↔ Fits row col s :=
  ⟨Fits.of_aligned h hs, fun hf => hf.aligned h hs⟩

end Row

end SchemaSketch.Grid
