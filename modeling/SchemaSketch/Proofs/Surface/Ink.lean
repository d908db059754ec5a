import Mathlib.Data.List.Induction
import SchemaSketch.Surface.TextImage

/-!
Marks on a text image. A mark is drawn by putting single characters into cells, and what every such
character keeps is kept by the mark as a whole.
-/
namespace SchemaSketch

section Write

variable {P : Grid → Prop} {g : Grid}

theorem Grid.setContinuations_induction (hset : ∀ g row col, P g → P (g.set row col continuation))
    (h : P g) (row col : Int) (count : Nat) : P (g.setContinuations row col count) := by
  induction count generalizing g col with
  | zero => exact h
  | succ count ih => exact ih (hset g row col h) (col + 1)

theorem Grid.write_induction {s : List Char}
    (hset : ∀ g row col, ∀ c ∈ continuation :: s, P g → P (g.set row col c)) (h : P g)
    (row col : Int) : P (g.write row col s) := by
  induction s generalizing g col with
  | nil => exact h
  | cons c s ih =>
    refine ih (fun g row col d hd => hset g row col d ?_) ?_ _
    · exact (List.mem_cons.1 hd).elim (fun hd => hd ▸ List.mem_cons_self)
        fun hd => List.mem_cons_of_mem _ (List.mem_cons_of_mem c hd)
    · refine setContinuations_induction (fun g row col => ?_) ?_ row (col + 1) _
      · exact hset g row col continuation List.mem_cons_self
      · exact hset g row col c (by simp) h

end Write

namespace TextImage

/-- What holds of every step through the cells of a box holds of the walk as a whole. -/
theorem foldBox_induction {α : Type} {P : α → Prop} (s : TextImage) (low high : Point)
    {step : α → Int → Int → α} (hstep : ∀ a row col, P a → P (step a row col)) {a : α} (ha : P a) :
    P (s.foldBox low high step a) := by
  unfold foldBox
  split
  · exact List.foldlRecOn _ _ ha fun b hb row _ =>
      List.foldlRecOn _ _ hb fun b hb col _ => hstep b row col hb
  · exact ha

def ink : Mark → List Char
  | .strokeCircle _ _ => ['o']
  | .fillCircle _ _ => [' ']
  | .text _ label => Grid.continuation :: label.toList
  | .line _ _ => ['-', '|', '\\', '/']
  | .triangle _ _ _ => ['*']

theorem lineChar_mem_ink (dx dy : Float) (start finish : Point) :
    lineChar dx dy ∈ ink (.line start finish) := by
  unfold lineChar
  split
  · simp [ink]
  · split
    · simp [ink]
    · split <;> simp [ink]

section Induction

variable {P : TextImage → Prop} {s : TextImage}

theorem plot_induction {c : Char} (hset : ∀ s row col, P s → P (s.setCell row col c)) (h : P s)
    (pixel : Point) : P (plot c s pixel) := by
  unfold plot
  split
  · exact hset s _ _ h
  · exact h

theorem put_induction {m : Mark}
    (hset : ∀ s row col, ∀ c ∈ ink m, P s → P (s.setCell row col c)) (h : P s) :
    P (Surface.put m s) := by
  cases m with
  | strokeCircle center radius =>
    simp only [Surface.put, put, strokeCircle]
    split
    · exact h
    · refine List.foldlRecOn _ _ h fun t ht i _ => plot_induction (fun t row col => ?_) ht _
      exact hset t row col 'o' List.mem_cons_self
  | fillCircle center radius =>
    simp only [Surface.put, put, fillCircle]
    split
    · exact h
    · refine foldBox_induction s _ _ (fun t row col ht => ?_) h
      split
      · exact hset t row col ' ' List.mem_cons_self ht
      · exact ht
  | text position label =>
    simp only [Surface.put, put, drawText]
    split
    · exact Grid.write_induction (P := fun g => P { s with grid := g })
        (fun g row col c hc hg => hset { s with grid := g } row col c hc hg) h _ _
    · exact h
  | line start finish =>
    simp only [Surface.put, put, strokeLine]
    split
    · refine List.foldlRecOn _ _ h fun t ht i _ => plot_induction (fun t row col => ?_) ht _
      exact hset t row col _ (lineChar_mem_ink _ _ start finish)
    · exact h
  | triangle a b c =>
    have hstar (t : TextImage) (row col : Int) (ht : P t) : P (t.setCell row col '*') :=
      hset t row col '*' List.mem_cons_self ht
    simp only [Surface.put, put, fillTriangle]
    split
    · refine foldBox_induction (P := fun r : TextImage × Bool => P r.1) s _ _
        (fun r row col hr => ?_) h
      split
      · exact hstar r.1 row col hr
      · exact hr
    · exact plot_induction hstar h _

end Induction

def Inked (s t : TextImage) : Prop :=
  ∃ grid, t = { s with grid := grid }

theorem Inked.refl (s : TextImage) : Inked s s :=
  ⟨s.grid, rfl⟩

theorem Inked.trans {s t u : TextImage} (h : Inked s t) (h' : Inked t u) : Inked s u := by
  obtain ⟨g, rfl⟩ := h
  obtain ⟨g', rfl⟩ := h'
  exact ⟨g', rfl⟩

theorem inked_foldl {β : Type} {f : TextImage → β → TextImage} (hf : ∀ s b, Inked s (f s b))
    (s : TextImage) (bs : List β) : Inked s (bs.foldl f s) :=
  List.foldlRecOn bs f (Inked.refl s) fun t ht b _ => ht.trans (hf t b)

theorem inked_put (m : Mark) (s : TextImage) : Inked s (Surface.put m s) :=
  put_induction (fun _ _ _ _ _ ht => ht.trans ⟨_, rfl⟩) (Inked.refl s)

end TextImage

end SchemaSketch
