import SchemaSketch.Proofs.Editor.Lockstep
import SchemaSketch.Proofs.Safety.Cells
import SchemaSketch.Surface.TextImage

/-!
The text surface under guards. Whatever is drawn, and wherever it lies, no cell is looked up that
is not there, and the canvas shows what `TextImage` shows.
-/
namespace SchemaSketch.Guarded

def ordered (low high : Float) : Except Breach Unit :=
  if low ≤ high then .ok () else .error .emptyRange

def wholes (low high : Int) : List Int :=
  (List.range (high + 1 - low).toNat).map (low + Int.ofNat ·)

structure Canvas where
  image : TextImage
  rows : Nat

namespace Canvas

def setCell (s : Canvas) (row col : Int) (c : Char) : Except Breach Canvas := do
  let grid ← Guarded.set s.rows s.image.grid row col c
  .ok { s with image := { s.image with grid := grid } }

def plot (c : Char) (s : Canvas) (pixel : Point) : Except Breach Canvas :=
  if pixel.isFinite then
    let (row, col) := s.image.cellOf pixel
    s.setCell row col c
  else .ok s

def cellsInBox (s : Canvas) (low high : Point) : List (Int × Int) :=
  if low.isFinite && high.isFinite then
    let (top, left) := s.image.cellOf low
    let (bottom, right) := s.image.cellOf high
    (wholes (max top 0) (min bottom (s.rows - 1))).flatMap fun row =>
      (wholes (max left 0) (min right (s.image.grid.columns - 1))).map (row, ·)
  else []

def strokeCircle (s : Canvas) (center : Point) (radius : Float) : Except Breach Canvas :=
  if radius ≤ 0.0 then .ok s
  else do
    ordered 16.0 20000.0
    let samples := s.image.circleSamples (radius * s.image.scale)
    (List.range samples).foldlM (fun s i =>
      plot 'o' s (s.image.toPixels (center.onCircle radius
        (tau * Float.ofNat i / Float.ofNat samples)))) s

def fillCircle (s : Canvas) (center : Point) (radius : Float) : Except Breach Canvas :=
  if radius ≤ 0.0 then .ok s
  else
    let c := s.image.toPixels center
    let r := radius * s.image.scale
    (s.cellsInBox (c - ⟨r, r⟩) (c + ⟨r, r⟩)).foldlM (fun s (row, col) =>
      if (s.image.cellCenter row col).distanceSquared c ≤ r * r then s.setCell row col ' '
      else .ok s) s

def drawText (s : Canvas) (position : Point) (label : String) : Except Breach Canvas :=
  let p := s.image.toPixels position
  if p.isFinite then do
    let (row, col) := s.image.cellOf p
    let half := Text.displayWidth label.toList / 2
    let grid ← write s.rows s.image.grid row (col - (half : Int)) label.toList
    .ok { s with image := { s.image with grid := grid } }
  else .ok s

def strokeLine (s : Canvas) (start finish : Point) : Except Breach Canvas :=
  let a := s.image.toPixels start
  let b := s.image.toPixels finish
  if a.isFinite && b.isFinite then do
    let dx := (b.x - a.x) / s.image.cellSize
    let dy := (b.y - a.y) / s.image.rowHeight
    ordered 1.0 20000.0
    let steps := TextImage.lineSteps dx dy
    (List.range (steps + 1)).foldlM (fun s i =>
      plot (TextImage.lineChar dx dy) s
        (a + (b - a).scale (Float.ofNat i / Float.ofNat steps))) s
  else .ok s

def fillTriangle (s : Canvas) (a b c : Point) : Except Breach Canvas := do
  let a := s.image.toPixels a
  let b := s.image.toPixels b
  let c := s.image.toPixels c
  let low : Point := ⟨smaller (smaller a.x b.x) c.x, smaller (smaller a.y b.y) c.y⟩
  let high : Point := ⟨larger (larger a.x b.x) c.x, larger (larger a.y b.y) c.y⟩
  let (filled, isFilled) ← (s.cellsInBox low high).foldlM (fun (s, isFilled) (row, col) =>
    if TextImage.triangleContains a b c (s.image.cellCenter row col) then do
      let s ← s.setCell row col '*'
      .ok (s, true)
    else .ok (s, isFilled)) (s, false)
  if isFilled then .ok filled else plot '*' s a

def put : Mark → Canvas → Except Breach Canvas
  | .strokeCircle center radius, s => s.strokeCircle center radius
  | .fillCircle center radius, s => s.fillCircle center radius
  | .text position label, s => s.drawText position label
  | .line start finish, s => s.strokeLine start finish
  | .triangle a b c, s => s.fillTriangle a b c

def resize (width height : Float) (s : Canvas) : Canvas :=
  let cellSize := s.image.cellSize
  ⟨⟨width, height, cellSize, TextImage.emptyGrid width height cellSize, s.image.scales⟩,
    TextImage.side height (2.0 * cellSize)⟩

def blank (width height cellSize : Float) : Canvas :=
  let image := TextImage.blank width height cellSize
  ⟨image, TextImage.side height (2.0 * image.cellSize)⟩

/-- The canvas under drawing. Once a guard has stopped it, nothing more is drawn. -/
instance : Surface (Except Breach Canvas) where
  width
    | .ok s => s.image.width
    | .error _ => 0.0
  height
    | .ok s => s.image.height
    | .error _ => 0.0
  resize w h x := do
    let s ← x
    .ok (s.resize w h)
  clear x := do
    let s ← x
    .ok (s.resize s.image.width s.image.height)
  put m x := do
    let s ← x
    put m s
  openScope factor x := do
    let s ← x
    .ok { s with image := { s.image with scales := factor :: s.image.scales } }
  closeScope x := do
    let s ← x
    .ok { s with image := { s.image with scales := s.image.scales.tail } }

def Shows (rows : Nat) (s : TextImage) (x : Except Breach Canvas) : Prop :=
  x = .ok ⟨s, rows⟩ ∧ Sized rows s.grid

variable {rows : Nat} {s : TextImage} {x : Except Breach Canvas}

/-- Both take the same branch. -/
theorem shows_ite {p : Prop} {i j : Decidable p} {t t' : TextImage} {x x' : Except Breach Canvas}
    (ht : p → Shows rows t x) (hf : ¬ p → Shows rows t' x') :
    Shows rows (@ite _ p i t t') (@ite _ p j x x') := by
  by_cases hp : p
  · rw [if_pos hp, if_pos hp]
    exact ht hp
  · rw [if_neg hp, if_neg hp]
    exact hf hp

theorem shows_bind {α : Type} {y : Except Breach α} {a : α} {k : α → Except Breach Canvas}
    (hy : y = .ok a) (hk : Shows rows s (k a)) : Shows rows s (y >>= k) := by
  rw [hy]
  exact hk

theorem shows_setCell (h : Sized rows s.grid) (row col : Int) (c : Char) :
    Shows rows (s.setCell row col c) (setCell ⟨s, rows⟩ row col c) := by
  refine ⟨?_, h.set row col c⟩
  rw [setCell, h.set_eq, bind_ok]
  rfl

/-- What one step shows, a walk through a list shows. -/
theorem shows_foldlM {β : Type} {f : TextImage → β → TextImage}
    {f' : Canvas → β → Except Breach Canvas}
    (hf : ∀ s b, Sized rows s.grid → Shows rows (f s b) (f' ⟨s, rows⟩ b)) (bs : List β)
    (h : Sized rows s.grid) : Shows rows (bs.foldl f s) (bs.foldlM f' ⟨s, rows⟩) :=
  foldlM_eq hf bs h

theorem shows_plot (h : Sized rows s.grid) (c : Char) (pixel : Point) :
    Shows rows (TextImage.plot c s pixel) (plot c ⟨s, rows⟩ pixel) :=
  shows_ite (fun _ => shows_setCell h _ _ c) fun _ => ⟨rfl, h⟩

/-- Both walk through the same cells. -/
theorem clipped_eq (low high : Int) (count : Nat) :
    TextImage.clipped low high count = wholes (max low 0) (min high (count - 1)) := by
  simp only [TextImage.clipped, wholes]
  by_cases h : max low 0 ≤ min high (count - 1)
  · have hf : max low 0 = (low.toNat : Int) := by omega
    have hb : (min (high + 1) (count : Int)).toNat - low.toNat =
        (min high (count - 1) + 1 - max low 0).toNat := by omega
    rw [hb, hf, List.range'_eq_map_range, List.map_map]
    rfl
  · have hb : (min (high + 1) (count : Int)).toNat - low.toNat = 0 := by omega
    have he : (min high (count - 1) + 1 - max low 0).toNat = 0 := by omega
    rw [hb, he]
    rfl

theorem foldBox_eq (h : Sized rows s.grid) {α : Type} (low high : Point)
    (step : α → Int → Int → α) (a : α) :
    s.foldBox low high step a =
      (cellsInBox ⟨s, rows⟩ low high).foldl (fun a cell => step a cell.1 cell.2) a := by
  unfold TextImage.foldBox cellsInBox
  split
  · simp only [clipped_eq, h.rows_eq, List.foldl_flatMap, List.foldl_map]
  · rfl

theorem shows_strokeCircle (h : Sized rows s.grid) (center : Point) (radius : Float) :
    Shows rows (s.strokeCircle center radius) (strokeCircle ⟨s, rows⟩ center radius) := by
  refine shows_ite (fun _ => ⟨rfl, h⟩) fun _ => ?_
  have ho : ordered 16.0 20000.0 = .ok () := if_pos (by decide)
  rw [ho, bind_ok]
  refine shows_foldlM (fun t i ht => ?_) _ h
  exact shows_plot ht _ _

theorem shows_fillCircle (h : Sized rows s.grid) (center : Point) (radius : Float) :
    Shows rows (s.fillCircle center radius) (fillCircle ⟨s, rows⟩ center radius) := by
  refine shows_ite (fun _ => ⟨rfl, h⟩) fun _ => ?_
  rw [foldBox_eq h]
  refine shows_foldlM (fun t cell ht => ?_) _ h
  exact shows_ite (fun _ => shows_setCell ht _ _ _) fun _ => ⟨rfl, ht⟩

theorem shows_drawText (h : Sized rows s.grid) (position : Point) (label : String) :
    Shows rows (s.drawText position label) (drawText ⟨s, rows⟩ position label) :=
  shows_ite (fun _ => shows_bind (h.write_eq _ _ _).1 ⟨rfl, (h.write_eq _ _ _).2⟩)
    fun _ => ⟨rfl, h⟩

theorem shows_strokeLine (h : Sized rows s.grid) (start finish : Point) :
    Shows rows (s.strokeLine start finish) (strokeLine ⟨s, rows⟩ start finish) := by
  refine shows_ite (fun _ => ?_) fun _ => ⟨rfl, h⟩
  have ho : ordered 1.0 20000.0 = .ok () := if_pos (by decide)
  rw [ho, bind_ok]
  refine shows_foldlM (fun t i ht => ?_) _ h
  exact shows_plot ht _ _

/-- A walk that fills cells and also notes whether it has filled any. -/
theorem foldlM_filling (inside : TextImage → Int × Int → Bool) (cells : List (Int × Int))
    (h : Sized rows s.grid) :
    ∃ t isFilled,
      cells.foldl (fun x cell =>
        if inside x.1 cell then (x.1.setCell cell.1 cell.2 '*', true) else (x.1, x.2))
        (s, false) = (t, isFilled) ∧
      cells.foldlM (fun (x : Canvas × Bool) cell =>
        if inside x.1.image cell then do
          let s ← x.1.setCell cell.1 cell.2 '*'
          .ok (s, true)
        else .ok (x.1, x.2)) (⟨s, rows⟩, false) = .ok (⟨t, rows⟩, isFilled) ∧
      Sized rows t.grid := by
  refine ⟨_, _, rfl, foldlM_eq (g := fun x : TextImage × Bool => ((⟨x.1, rows⟩ : Canvas), x.2))
    (I := fun x => Sized rows x.1.grid) (fun x cell hx => ?_) cells (a := (s, false)) h⟩
  obtain ⟨hset, hr⟩ := shows_setCell hx cell.1 cell.2 '*'
  by_cases hi : inside x.1 cell = true
  · rw [if_pos hi, if_pos hi, hset]
    exact ⟨rfl, hr⟩
  · rw [if_neg hi, if_neg hi]
    exact ⟨rfl, hx⟩

theorem shows_fillTriangle (h : Sized rows s.grid) (a b c : Point) :
    Shows rows (s.fillTriangle a b c) (fillTriangle ⟨s, rows⟩ a b c) := by
  unfold TextImage.fillTriangle fillTriangle
  simp only [foldBox_eq h]
  generalize cellsInBox ⟨s, rows⟩ _ _ = cells
  obtain ⟨t, isFilled, ht, hcells, hr⟩ := foldlM_filling (fun t cell =>
    TextImage.triangleContains (s.toPixels a) (s.toPixels b) (s.toPixels c)
      (t.cellCenter cell.1 cell.2)) cells h
  rw [ht]
  exact shows_bind hcells (shows_ite (fun _ => ⟨rfl, hr⟩) fun _ => shows_plot h _ _)

theorem shows_put (h : Sized rows s.grid) (m : Mark) :
    Shows rows (Surface.put m s) (put m ⟨s, rows⟩) := by
  cases m with
  | strokeCircle center radius => exact shows_strokeCircle h center radius
  | fillCircle center radius => exact shows_fillCircle h center radius
  | text position label => exact shows_drawText h position label
  | line start finish => exact shows_strokeLine h start finish
  | triangle a b c => exact shows_fillTriangle h a b c

def Mirrors (s : TextImage) (x : Except Breach Canvas) : Prop :=
  ∃ rows, Shows rows s x

theorem Mirrors.put (h : Mirrors s x) (m : Mark) : Mirrors (Surface.put m s) (Surface.put m x) := by
  obtain ⟨rows, rfl, hr⟩ := h
  exact ⟨rows, shows_put hr m⟩

/-- An empty grid has its size, whatever was on the canvas before. -/
theorem Mirrors.resize (h : Mirrors s x) (width height : Float) :
    Mirrors (Surface.resize width height s) (Surface.resize width height x) := by
  obtain ⟨rows, rfl, -⟩ := h
  exact ⟨_, rfl, sized_blank _ _⟩

theorem Mirrors.clear (h : Mirrors s x) : Mirrors (Surface.clear s) (Surface.clear x) := by
  obtain ⟨rows, rfl, -⟩ := h
  exact ⟨_, rfl, sized_blank _ _⟩

/-- One step of a drawing after the other goes through. -/
theorem Mirrors.on (h : Mirrors s x) (d : Drawing) : Mirrors (d.on s) (d.on x) := by
  induction d generalizing s x with
  | done => exact h
  | clear d ih => exact ih h.clear
  | resize width height d ih => exact ih (h.resize width height)
  | mark m d ih => exact ih (h.put m)
  | scope factor inner d ihInner ih =>
    have hopen : Mirrors (Surface.openScope factor s) (Surface.openScope factor x) := by
      obtain ⟨rows, rfl, hr⟩ := h
      exact ⟨rows, rfl, hr⟩
    obtain ⟨rows, hx, hr⟩ := ihInner hopen
    apply ih
    rw [hx]
    exact ⟨rows, rfl, hr⟩

theorem mirrors_blank (width height cellSize : Float) :
    Mirrors (.blank width height cellSize) (.ok (blank width height cellSize)) :=
  ⟨_, rfl, sized_blank _ _⟩

/-- Editors on a canvas and on the image do the same, so no guard of a canvas ever stops one. -/
theorem lockstep : Surface.Lockstep Mirrors where
  width h := by
    obtain ⟨rows, rfl, -⟩ := h
    rfl
  height h := by
    obtain ⟨rows, rfl, -⟩ := h
    rfl
  resize h := h.resize
  frame h _ _ _ := h.on _

end Canvas

end SchemaSketch.Guarded
