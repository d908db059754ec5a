import SchemaSketch.Drawing
import SchemaSketch.Surface.Grid

/-!
A surface that draws shapes with characters. One column is `cellSize` pixels wide and a row is
twice as high, which keeps circles roughly round.
-/
namespace SchemaSketch

structure TextImage where
  width : Float
  height : Float
  cellSize : Float
  grid : Grid
  /-- The factors of the open scopes, the innermost first. -/
  scales : List Float
  deriving DecidableEq

namespace TextImage

/-- The most rows and the most columns a grid has; what lies beyond is cropped. -/
def maxSide : Nat := 2000

def maxSamples : Nat := 20000

def side (length cell : Float) : Nat :=
  let cells := larger length 0.0 / cell
  if cells.isNaN then maxSide else min maxSide (ceilNat cells)

def emptyGrid (width height cellSize : Float) : Grid :=
  .blank (side height (2.0 * cellSize)) (side width cellSize)

def blank (width height cellSize : Float) : TextImage :=
  let cellSize := if 0.0 < cellSize then cellSize else 1.0
  ⟨width, height, cellSize, emptyGrid width height cellSize, []⟩

def scale (s : TextImage) : Float :=
  s.scales.foldr (fun factor product => product * factor) 1.0

def rowHeight (s : TextImage) : Float :=
  2.0 * s.cellSize

def toPixels (s : TextImage) (p : Point) : Point :=
  p.scale s.scale

def cellOf (s : TextImage) (pixel : Point) : Int × Int :=
  (floorInt (pixel.y / s.rowHeight), floorInt (pixel.x / s.cellSize))

def cellCenter (s : TextImage) (row col : Int) : Point :=
  ⟨(Float.ofInt col + 0.5) * s.cellSize, (Float.ofInt row + 0.5) * s.rowHeight⟩

def setCell (s : TextImage) (row col : Int) (c : Char) : TextImage :=
  { s with grid := s.grid.set row col c }

def plot (c : Char) (s : TextImage) (pixel : Point) : TextImage :=
  if pixel.isFinite then
    let (row, col) := s.cellOf pixel
    s.setCell row col c
  else s

def clipped (low high : Int) (count : Nat) : List Int :=
  let first := low.toNat
  let beyond := (min (high + 1) (count : Int)).toNat
  (List.range' first (beyond - first)).map Int.ofNat

def foldBox {α : Type} (s : TextImage) (low high : Point) (step : α → Int → Int → α) (a : α) : α :=
  if low.isFinite && high.isFinite then
    let (top, left) := s.cellOf low
    let (bottom, right) := s.cellOf high
    let cols := clipped left right s.grid.columns
    (clipped top bottom s.grid.rows).foldl (fun a row =>
      cols.foldl (fun a col => step a row col) a) a
  else a

def circleSamples (s : TextImage) (pixelRadius : Float) : Nat :=
  let cells := tau * pixelRadius / s.cellSize * 2.0
  if cells.isNaN then 0 else max 16 (min maxSamples (ceilNat cells))

def strokeCircle (s : TextImage) (center : Point) (radius : Float) : TextImage :=
  if radius ≤ 0.0 then s
  else
    let samples := s.circleSamples (radius * s.scale)
    (List.range samples).foldl (fun s i =>
      plot 'o' s (s.toPixels (center.onCircle radius
        (tau * Float.ofNat i / Float.ofNat samples)))) s

def fillCircle (s : TextImage) (center : Point) (radius : Float) : TextImage :=
  if radius ≤ 0.0 then s
  else
    let c := s.toPixels center
    let r := radius * s.scale
    s.foldBox (c - ⟨r, r⟩) (c + ⟨r, r⟩) (fun t row col =>
      if (t.cellCenter row col).distanceSquared c ≤ r * r then t.setCell row col ' ' else t) s

def drawText (s : TextImage) (position : Point) (label : String) : TextImage :=
  let p := s.toPixels position
  if p.isFinite then
    let (row, col) := s.cellOf p
    let half := Text.displayWidth label.toList / 2
    { s with grid := s.grid.write row (col - (half : Int)) label.toList }
  else s

def lineChar (dx dy : Float) : Char :=
  if dy.abs < 0.5 * dx.abs then '-'
  else if dx.abs < 0.5 * dy.abs then '|'
  else if 0.0 < dx * dy then '\\'
  else '/'

def lineSteps (dx dy : Float) : Nat :=
  let cells := larger dx.abs dy.abs * 2.0
  if cells.isNaN then 0 else max 1 (min maxSamples (ceilNat cells))

def strokeLine (s : TextImage) (start finish : Point) : TextImage :=
  let a := s.toPixels start
  let b := s.toPixels finish
  if a.isFinite && b.isFinite then
    let dx := (b.x - a.x) / s.cellSize
    let dy := (b.y - a.y) / s.rowHeight
    let steps := lineSteps dx dy
    (List.range (steps + 1)).foldl (fun s i =>
      plot (lineChar dx dy) s (a + (b - a).scale (Float.ofNat i / Float.ofNat steps))) s
  else s

def cross (o u v : Point) : Float :=
  (u.x - o.x) * (v.y - o.y) - (u.y - o.y) * (v.x - o.x)

/-- Whether a point lies on no two different sides of the edges of a triangle. -/
def triangleContains (a b c p : Point) : Bool :=
  let d1 := cross a b p
  let d2 := cross b c p
  let d3 := cross c a p
  let negative := d1 < 0.0 || d2 < 0.0 || d3 < 0.0
  let positive := 0.0 < d1 || 0.0 < d2 || 0.0 < d3
  !(negative && positive)

def fillTriangle (s : TextImage) (a b c : Point) : TextImage :=
  let a := s.toPixels a
  let b := s.toPixels b
  let c := s.toPixels c
  let low : Point := ⟨smaller (smaller a.x b.x) c.x, smaller (smaller a.y b.y) c.y⟩
  let high : Point := ⟨larger (larger a.x b.x) c.x, larger (larger a.y b.y) c.y⟩
  let (filled, isFilled) := s.foldBox low high (fun (t, isFilled) row col =>
    if triangleContains a b c (t.cellCenter row col) then (t.setCell row col '*', true)
    else (t, isFilled)) (s, false)
  if isFilled then filled else plot '*' s a

def put : Mark → TextImage → TextImage
  | .strokeCircle center radius, s => s.strokeCircle center radius
  | .fillCircle center radius, s => s.fillCircle center radius
  | .text position label, s => s.drawText position label
  | .line start finish, s => s.strokeLine start finish
  | .triangle a b c, s => s.fillTriangle a b c

instance : Surface TextImage where
  width := width
  height := height
  resize w h s := { s with width := w, height := h, grid := emptyGrid w h s.cellSize }
  clear s := { s with grid := emptyGrid s.width s.height s.cellSize }
  put := put
  openScope factor s := { s with scales := factor :: s.scales }
  closeScope s := { s with scales := s.scales.tail }

end TextImage

end SchemaSketch
