import SchemaSketch.Proofs.Surface.Alignment

/-!
Runs of drawing calls on a grid. All grids of a run are aligned exactly if every call fits when it
is made, and an aligned row is shown with every character in its own column.
-/
namespace SchemaSketch.Grid

open Text

inductive Op where
  | set (row col : Int) (c : Char)
  | write (row col : Int) (s : List Char)

namespace Op

def row : Op → Int
  | set row _ _ => row
  | write row _ _ => row

def col : Op → Int
  | set _ col _ => col
  | write _ col _ => col

def text : Op → List Char
  | set _ _ c => [c]
  | write _ _ s => s

def Plain : Op → Prop
  | set _ _ c => charWidth c = 1 ∧ c ≠ continuation
  | write _ _ s => continuation ∉ s

def Fits (op : Op) (g : Grid) : Prop :=
  ∀ (r : Nat) row, (r : Int) = op.row → g.cells[r]? = some row → Grid.Fits row op.col op.text

end Op

def step (g : Grid) : Op → Grid
  | .set row col c => g.set row col c
  | .write row col s => g.write row col s

def run : Grid → List Op → Grid
  | g, [] => g
  | g, op :: ops => run (step g op) ops

def Aligned (g : Grid) : Prop :=
  ∀ (r : Nat) row, g.cells[r]? = some row → AlignedRow row

variable {g : Grid} {op : Op} {ops : List Op} {row : Array Char}

theorem Op.Plain.not_mem (hp : op.Plain) : continuation ∉ op.text := by
  cases op with
  | set row col c => simpa [Op.text] using hp.2.symm
  | write row col s => exact hp

theorem getElem?_step (hp : op.Plain) (r : Nat) : (step g op).cells[r]? =
    g.cells[r]?.map fun cells =>
      if (r : Int) = op.row then putAll cells op.col (spread op.text) else cells := by
  cases op with
  | set row col c =>
    have hs : spread [c] = [c] := by simp [spread, hp.1]
    rw [step, getElem?_set, Op.text, hs]
    rfl
  | write row col s => exact getElem?_write g row col r s

theorem aligned_step_iff (hg : Aligned g) (hp : op.Plain) : Aligned (step g op) ↔ op.Fits g := by
  constructor
  · intro h r row hr hrow
    have hput := h r (putAll row op.col (spread op.text)) (by
      rw [getElem?_step hp, hrow, Option.map_some, if_pos hr])
    exact (aligned_putAll_iff (hg r row hrow) hp.not_mem).1 hput
  · intro h r row' hrow'
    rw [getElem?_step hp] at hrow'
    obtain ⟨row, hrow, rfl⟩ := Option.map_eq_some_iff.1 hrow'
    by_cases hr : (r : Int) = op.row
    · rw [if_pos hr]
      exact (aligned_putAll_iff (hg r row hrow) hp.not_mem).2 (h r row hr hrow)
    · rw [if_neg hr]
      exact hg r row hrow

theorem blank_cell {rows columns r k : Nat} {d : Char}
    (hrow : (blank rows columns).cells[r]? = some row) (hd : row[k]? = some d) : d = ' ' := by
  simp only [blank, Array.getElem?_replicate] at hrow
  split at hrow
  · rw [← Option.some_inj.1 hrow, Array.getElem?_replicate] at hd
    split at hd
    · exact (Option.some_inj.1 hd).symm
    · cases hd
  · cases hrow

theorem aligned_blank (rows columns : Nat) : Aligned (blank rows columns) := by
  intro r row hrow
  constructor
  · intro k hk
    exact absurd (blank_cell hrow hk) (by decide)
  · intro j k c d hj hjk hw hk
    have hspace : charWidth ' ' = 1 := by decide
    rw [blank_cell hrow hj, hspace] at hw
    omega

theorem aligned_run_iff (hg : Aligned g) (hp : ∀ op ∈ ops, op.Plain) :
    (∀ before, before <+: ops → Aligned (run g before)) ↔
      ∀ before op, before ++ [op] <+: ops → op.Fits (run g before) := by
  induction ops generalizing g with
  | nil =>
    constructor
    · intro _ before op h
      simp at h
    · intro _ before h
      rw [List.prefix_nil.1 h]
      exact hg
  | cons op ops ih =>
    have hop : op.Plain := hp op (by simp)
    have hops : ∀ op' ∈ ops, op'.Plain := fun op' h => hp op' (by simp [h])
    constructor
    · intro h before op' hb
      have hstep : Aligned (step g op) := h [op] (by simp)
      cases before with
      | nil =>
        obtain ⟨rfl, -⟩ := List.cons_prefix_cons.1 hb
        exact (aligned_step_iff hg hop).1 hstep
      | cons op'' before =>
        obtain ⟨rfl, ht⟩ := List.cons_prefix_cons.1 hb
        refine (ih hstep hops).1 (fun b hb' => ?_) before op' ht
        exact h (op'' :: b) (List.cons_prefix_cons.2 ⟨rfl, hb'⟩)
    · intro h before hb
      have hstep := (aligned_step_iff hg hop).2 (h [] op (by simp))
      cases before with
      | nil => exact hg
      | cons op'' before =>
        obtain ⟨rfl, ht⟩ := List.cons_prefix_cons.1 hb
        refine (ih hstep hops).2 (fun b op' hb' => ?_) before ht
        exact h (op'' :: b) op' (List.cons_prefix_cons.2 ⟨rfl, hb'⟩)

section Shown

variable {k : Nat} {c : Char}

def shownBefore (row : Array Char) (k : Nat) : List Char :=
  (row.toList.take k).filter (· ≠ continuation)

def width : List Char → Nat
  | [] => 0
  | c :: s => charWidth c + width s

theorem width_append (s t : List Char) : width (s ++ t) = width s + width t := by
  induction s with
  | nil => simp [width]
  | cons c s ih => rw [List.cons_append, width, ih, width, Nat.add_assoc]

theorem shownBefore_succ (h : row[k]? = some c) :
    shownBefore row (k + 1) = shownBefore row k ++ [c].filter (· ≠ continuation) := by
  have hc : row.toList[k]? = some c := by rwa [Array.getElem?_toList]
  rw [shownBefore, List.take_add_one, hc, List.filter_append]
  rfl

theorem width_shownBefore_succ (h : row[k]? = some c) (hc : c ≠ continuation) :
    width (shownBefore row (k + 1)) = width (shownBefore row k) + charWidth c := by
  rw [shownBefore_succ h, width_append]
  simp [width, hc]

/-- The width `n` of what is shown for the cells before column `k`: it takes in all characters that
begin there, and only their marks beyond. -/
structure Reaches (row : Array Char) (k n : Nat) : Prop where
  begun : ∀ j c, j < k → row[j]? = some c → j + charWidth c ≤ n
  marks : ∀ m c, k ≤ m → m < n → row[m]? = some c → c = continuation

theorem Reaches.eq {n : Nat} (h : Reaches row k n) (hk : row[k]? = some c)
    (hc : c ≠ continuation) : n = k := by
  have hl := (Array.getElem?_eq_some_iff.1 hk).1
  have hle : n ≤ k := by
    by_contra hlt
    exact hc (h.marks k c (by omega) (by omega) hk)
  cases k with
  | zero => omega
  | succ k =>
    have hlast : row[k]? = some row[k] := Array.getElem?_eq_getElem (by omega)
    have hge := h.begun k row[k] (by omega) hlast
    have hpos := charWidth_pos row[k]
    omega

theorem AlignedRow.reaches (h : AlignedRow row) (hk : k ≤ row.size) :
    Reaches row k (width (shownBefore row k)) := by
  induction k with
  | zero => constructor <;> simp [shownBefore, width]
  | succ k ih =>
    have ih := ih (by omega)
    have hk' : row[k]? = some row[k] := Array.getElem?_eq_getElem (by omega)
    by_cases hc : row[k] = continuation
    · have hs : shownBefore row (k + 1) = shownBefore row k := by
        rw [shownBefore_succ hk', hc]
        simp
      rw [hs]
      constructor
      · intro j c hj hjc
        by_cases hjk : j = k
        · -- The mark in the last column is one of a character that is counted.
          obtain ⟨i, c', hi, hic, hiw⟩ := h.led k (hc ▸ hk')
          have hle := ih.begun i c' hi hic
          rw [hjk, hk', Option.some_inj] at hjc
          rw [← hjc, hc, charWidth_continuation]
          omega
        · exact ih.begun j c (by omega) hjc
      · intro m c hm hmw hmc
        exact ih.marks m c (by omega) hmw hmc
    · rw [width_shownBefore_succ hk' hc, ih.eq hk' hc]
      constructor
      · intro j c hj hjc
        by_cases hjk : j = k
        · subst hjk
          rw [hk', Option.some_inj] at hjc
          exact Nat.le_of_eq (congrArg (j + charWidth ·) hjc.symm)
        · have hle := ih.begun j c (by omega) hjc
          rw [ih.eq hk' hc] at hle
          omega
      · intro m c hm hmw hmc
        exact h.followed k m row[k] c hk' (by omega) hmw hmc

theorem AlignedRow.width_shownBefore (h : AlignedRow row) (hk : row[k]? = some c)
    (hc : c ≠ continuation) : width (shownBefore row k) = k := by
  have hl := (Array.getElem?_eq_some_iff.1 hk).1
  exact (h.reaches (by omega)).eq hk hc

theorem prefix_trimEnd (s rest : List Char) (hc : isSpace c = false) :
    s ++ [c] <+: trimEnd (s ++ c :: rest) := by
  have hs : (s ++ c :: rest).reverse = rest.reverse ++ (s ++ [c]).reverse := by simp
  have hd : (s ++ [c]).reverse.dropWhile isSpace = (s ++ [c]).reverse := by simp [hc]
  rw [← List.reverse_suffix, trimEnd, List.reverse_reverse, hs, List.dropWhile_append, hd]
  split
  · exact List.suffix_refl _
  · exact List.suffix_append _ _

theorem shownBefore_prefix_lineText (hk : row[k]? = some c) (hc : c ≠ continuation)
    (hs : isSpace c = false) : shownBefore row k ++ [c] <+: lineText row := by
  have hl := (Array.getElem?_eq_some_iff.1 hk).1
  have hcells : row.toList = row.toList.take k ++ c :: row.toList.drop (k + 1) := by
    obtain ⟨h, hget⟩ := Array.getElem?_eq_some_iff.1 hk
    rw [← hget, ← Array.getElem_toList, List.getElem_cons_drop, List.take_append_drop]
  rw [lineText, hcells, List.filter_append, List.filter_cons_of_pos (by simpa using hc)]
  exact prefix_trimEnd _ _ hs

end Shown

/-- All grids of a run are aligned exactly if every call fits when it is made. Then every character
is shown behind characters whose widths add up to its column. -/
theorem aligned_iff_fits (rows columns : Nat) (ops : List Op) (h : ∀ op ∈ ops, op.Plain) :
    ((∀ before, before <+: ops → Aligned (run (blank rows columns) before)) ↔
      ∀ before op, before ++ [op] <+: ops → op.Fits (run (blank rows columns) before)) ∧
    ((∀ before op, before ++ [op] <+: ops → op.Fits (run (blank rows columns) before)) →
      ∀ (r : Nat) row, (run (blank rows columns) ops).cells[r]? = some row →
        ∀ (k : Nat) c, row[k]? = some c → c ≠ continuation →
          width (shownBefore row k) = k ∧
            (isSpace c = false → shownBefore row k ++ [c] <+: lineText row)) := by
  have hiff := aligned_run_iff (aligned_blank rows columns) h
  refine ⟨hiff, fun hfits r row hrow k c hk hc => ?_⟩
  have hrow' := hiff.2 hfits ops (List.prefix_refl ops) r row hrow
  exact ⟨hrow'.width_shownBefore hk hc, shownBefore_prefix_lineText hk hc⟩

/-- Nothing on a blank grid is in the way of a text that begins inside it. -/
theorem aligned_of_wide_text : (∀ op ∈ [Op.write 0 1 ['用', 'z']], op.Plain) ∧
    Aligned (run (blank 1 8) [Op.write 0 1 ['用', 'z']]) := by
  have hp : ∀ op ∈ [Op.write 0 1 ['用', 'z']], op.Plain := by
    intro op hop
    rw [List.mem_singleton.1 hop]
    show continuation ∉ ['用', 'z']
    decide
  refine ⟨hp, (aligned_iff_fits 1 8 _ hp).1.2 (fun before op hb => ?_) _ (List.prefix_refl _)⟩
  cases before with
  | nil =>
    obtain ⟨rfl, -⟩ := List.cons_prefix_cons.1 hb
    intro r row hr hrow
    have hmark (k : Nat) : row[k]? ≠ some continuation := fun hk =>
      absurd (blank_cell hrow hk) (by decide)
    refine ⟨fun _ => by decide, fun k _ _ _ _ => hmark (k + 1), fun _ k _ _ => hmark (k + 1),
      fun _ k _ => hmark k⟩
  | cons op' before =>
    obtain ⟨-, hb⟩ := List.cons_prefix_cons.1 hb
    simp at hb

def overwriting : List Op :=
  [.write 0 1 ['用'], .write 0 5 ['z'], .write 0 1 ['x']]

/-- The second half of the wide character stays behind, so that what stands in column 5 is shown
in column 4. -/
theorem not_aligned_of_overwriting : (∀ op ∈ overwriting, op.Plain) ∧
    ¬ Aligned (run (blank 1 8) overwriting) ∧
      (run (blank 1 8) overwriting).cells.map lineText = #[[' ', 'x', ' ', ' ', 'z']] := by
  have hcells : (run (blank 1 8) overwriting).cells =
      #[#[' ', 'x', continuation, ' ', ' ', 'z', ' ', ' ']] := by decide +kernel
  refine ⟨?_, fun h => ?_, by rw [hcells]; decide +kernel⟩
  · intro op hop
    simp only [overwriting, List.mem_cons, List.not_mem_nil, or_false] at hop
    obtain rfl | rfl | rfl := hop
    · show continuation ∉ ['用']
      decide
    · show continuation ∉ ['z']
      decide
    · show continuation ∉ ['x']
      decide
  · have hrow := h 0 #[' ', 'x', continuation, ' ', ' ', 'z', ' ', ' '] (by rw [hcells]; rfl)
    obtain ⟨j, c, hj, hc, hw⟩ := hrow.led 2 rfl
    -- Neither of the two cells before the mark is wide.
    have hnarrow : charWidth c = 1 := by
      obtain rfl | rfl : j = 0 ∨ j = 1 := by omega
      · obtain rfl : ' ' = c := by simpa using hc
        decide
      · obtain rfl : 'x' = c := by simpa using hc
        decide
    omega

end SchemaSketch.Grid
