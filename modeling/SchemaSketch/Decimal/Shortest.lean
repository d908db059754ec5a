import SchemaSketch.Decimal.Binary

/-!
The text of a double: the fewest decimal digits that read back to the same double, and of those
the nearest to it, written without an exponent.
-/
namespace SchemaSketch.Decimal

/-- A stretch of the number line around `middle`, in units of `numerator / denominator`; its ends
belong to it iff `closed`. -/
structure Stretch where
  low : Nat
  middle : Nat
  high : Nat
  closed : Bool
  numerator : Nat
  denominator : Nat

/-- The numbers that round to `m · 2 ^ q`, measured in units of `10 ^ k`. Below a power of two the
next double is only half as far away as above it. -/
def Stretch.around (m : Nat) (q k : Int) : Stretch where
  low := if m = Nat.pow 2 52 ∧ q ≠ -1074 then 4 * m - 1 else 4 * m - 2
  middle := 4 * m
  high := 4 * m + 2
  closed := m % 2 == 0
  numerator := Nat.pow 2 (q - 2).toNat * Nat.pow 10 (-k).toNat
  denominator := Nat.pow 2 (2 - q).toNat * Nat.pow 10 k.toNat

def Stretch.contains (s : Stretch) (d : Nat) : Bool :=
  let low := s.low * s.numerator
  let high := s.high * s.numerator
  let d := d * s.denominator
  if s.closed then low ≤ d && d ≤ high else low < d && d < high

def Stretch.nearest? (s : Stretch) : Option Nat :=
  let middle := s.middle * s.numerator
  let d := middle / s.denominator
  match s.contains d, s.contains (d + 1) with
  | true, true => if 2 * middle < (2 * d + 1) * s.denominator then some d else some (d + 1)
  | true, false => some d
  | false, true => some (d + 1)
  | false, false => none

/-- An exponent `k` with `m · 2 ^ q ≤ 10 ^ k`, for `m` not zero. -/
def decimalExponent (m : Nat) (q : Int) : Int :=
  ((m.log2 : Int) + q + 1) * 30103 / 100000 + 1

/-- Digits `d` and an exponent `k` such that `d · 10 ^ k` reads back to `m · 2 ^ q`, with `k` as
large as it can be. Seventeen digits are always enough. -/
def shortest (m : Nat) (q : Int) : Nat × Int :=
  let top := decimalExponent m q
  ((List.range 20).findSome? fun (i : Nat) =>
    (Stretch.around m q (top - (i : Int))).nearest?.map (·, top - (i : Int))).getD (0, 0)

def positional (d : Nat) (k : Int) : List Char :=
  let digits := Nat.toDigits 10 d
  if 0 ≤ k then digits ++ List.replicate k.toNat '0'
  else
    let places := (-k).toNat
    let padded := List.replicate (places + 1 - digits.length) '0' ++ digits
    padded.take (padded.length - places) ++ '.' :: padded.drop (padded.length - places)

def finiteText (negative : Bool) (m : Nat) (q : Int) : List Char :=
  let magnitude := if m = 0 then ['0'] else (fun (d, k) => positional d k) (shortest m q)
  if negative then '-' :: magnitude else magnitude

def text (x : Float) : String :=
  match Binary.ofFloat x with
  | .notANumber => "NaN"
  | .infinite false => "inf"
  | .infinite true => "-inf"
  | .finite negative m q => String.ofList (finiteText negative m q)

end SchemaSketch.Decimal
