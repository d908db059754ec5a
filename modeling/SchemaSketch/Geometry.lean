/-!
Points of the drawing plane, and whole numbers near a coordinate.
-/
namespace SchemaSketch

def tau : Float := 6.28318530717958647692

def twelfthTurn : Float := 0.52359877559829887308

/-- The larger of two numbers, the second of two that are equal; one that is no number is passed
over. -/
def larger (x y : Float) : Float :=
  if y < x || y.isNaN then x else y

def smaller (x y : Float) : Float :=
  if x < y || y.isNaN then x else y

def ceilNat (x : Float) : Nat :=
  let whole := x.toUInt64
  if whole.toFloat < x then whole.toNat + 1 else whole.toNat

def floorInt (x : Float) : Int :=
  if x < 0.0 then -(min (ceilNat (-x)) 0x8000000000000000 : Nat)
  else (min x.toUInt64.toNat 0x7FFFFFFFFFFFFFFF : Nat)

def powerOfTwo (n : Nat) : Float :=
  Float.ofNat (Nat.pow 2 n)

/-- A factor that brings numbers far from one to a size whose squares neither overflow nor
vanish. -/
def rescale : Float := powerOfTwo 600

def longLeg : Float := powerOfTwo 511

def shortLeg : Float := 1.0 / powerOfTwo 459

/-- A leg longer than the other one times this is as long as the hypotenuse. -/
def legRatio : Float := powerOfTwo 54

/-- The hypotenuse over legs `a` and `b` with `b ≤ a`: the root of the sum of the squares, less
what that is too long by. The excess of the square is put together from the differences of the
root and the legs, in which little is lost. -/
def correctedRoot (a b : Float) : Float :=
  let h := (a * a + b * b).sqrt
  let excess :=
    if h ≤ 2.0 * b then
      let d := h - b
      a * (2.0 * d - a) + (d - 2.0 * (a - b)) * d
    else
      let d := h - a
      2.0 * d * (a - 2.0 * b) + ((4.0 * d - b) * b + d * d)
  h - excess / (2.0 * h)

/-- The length of the hypotenuse, which neither overflows nor vanishes before it has to. Beside an
infinite leg even one that is no number does not matter. -/
def hypotenuse (x y : Float) : Float :=
  let a := larger x.abs y.abs
  let b := smaller x.abs y.abs
  if a.isInf then a
  else if x.isNaN || y.isNaN then x + y
  else if b * legRatio ≤ a then a + b
  else if longLeg < a then correctedRoot (a / rescale) (b / rescale) * rescale
  else if b < shortLeg then correctedRoot (a * rescale) (b * rescale) / rescale
  else correctedRoot a b

structure Point where
  x : Float
  y : Float
  deriving DecidableEq

namespace Point

def zero : Point := ⟨0.0, 0.0⟩

instance : Add Point := ⟨fun p q => ⟨p.x + q.x, p.y + q.y⟩⟩

instance : Sub Point := ⟨fun p q => ⟨p.x - q.x, p.y - q.y⟩⟩

def onCircle (center : Point) (radius angle : Float) : Point :=
  ⟨center.x + radius * angle.cos, center.y + radius * angle.sin⟩

def scale (p : Point) (factor : Float) : Point :=
  ⟨p.x * factor, p.y * factor⟩

def length (p : Point) : Float :=
  hypotenuse p.x p.y

def distanceSquared (p q : Point) : Float :=
  let dx := p.x - q.x
  let dy := p.y - q.y
  dx * dx + dy * dy

def distance (p q : Point) : Float :=
  (p - q).length

def angleTo (p q : Point) : Float :=
  Float.atan2 (q.y - p.y) (q.x - p.x)

/-- Moves `distance` from `p` along the line to `target`. Points that coincide have no direction
between them, and `p` stays where it is. -/
def towards (p target : Point) (distance : Float) : Point :=
  let offset := target - p
  let length := offset.length
  if length == 0.0 then p else p + offset.scale (distance / length)

def isFinite (p : Point) : Bool :=
  p.x.isFinite && p.y.isFinite

end Point

end SchemaSketch
