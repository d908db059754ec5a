import SchemaSketch.Text.Reader

/-!
Decimal numerals: reading one off the front of a text, and the double nearest to it.
-/
namespace SchemaSketch.Decimal

open Text

/-- A number `significand · 10 ^ exponent`. -/
structure Numeral where
  significand : Nat
  exponent : Int
  deriving DecidableEq

def infinity : Float := 1.0 / 0.0

def notANumber : Float := 0.0 / 0.0

/-- The double nearest to the numeral. Numerals far beyond the largest double or below the
smallest one are told by their order of magnitude alone. -/
def Numeral.toFloat (n : Numeral) : Float :=
  let magnitude := (n.significand.log2 : Int) * 30103 / 100000 + n.exponent
  if n.significand = 0 then 0.0
  else if 320 < magnitude then infinity
  else if magnitude < -340 then 0.0
  else Float.ofScientific n.significand (decide (n.exponent < 0)) n.exponent.natAbs

def digitsValue (digits : List Char) : Nat :=
  digits.foldl (fun n c => 10 * n + (c.toNat - '0'.toNat)) 0

def exponentValue? (s : List Char) : Option (Int × List Char) :=
  match s with
  | '-' :: r => (run1? Char.isDigit r).map fun (d, r) => (-(digitsValue d : Int), r)
  | '+' :: r => (run1? Char.isDigit r).map fun (d, r) => ((digitsValue d : Int), r)
  | _ => (run1? Char.isDigit s).map fun (d, r) => ((digitsValue d : Int), r)

def exponentAfter (s : List Char) : Int × List Char :=
  match s with
  | c :: r => if c = 'e' ∨ c = 'E' then (exponentValue? r).getD (0, s) else (0, s)
  | [] => (0, [])

def Numeral.withExponent (whole fraction rest : List Char) : Numeral × List Char :=
  let (e, rest) := exponentAfter rest
  (⟨digitsValue (whole ++ fraction), e - (fraction.length : Int)⟩, rest)

def Numeral.read? (s : List Char) : Option (Numeral × List Char) :=
  let whole := s.takeWhile Char.isDigit
  match s.dropWhile Char.isDigit with
  | '.' :: r =>
    let fraction := r.takeWhile Char.isDigit
    if whole.isEmpty && fraction.isEmpty then none
    else some (Numeral.withExponent whole fraction (r.dropWhile Char.isDigit))
  | r => if whole.isEmpty then none else some (Numeral.withExponent whole [] r)

def magnitude? (s : List Char) : Option (Float × List Char) :=
  match Numeral.read? s with
  | some (n, r) => some (n.toFloat, r)
  | none =>
    match keyword? "INFINITY".toList s with
    | some r => some (infinity, r)
    | none => (keyword? "INF".toList s).map (infinity, ·)

def nan? (s : List Char) : Option (Float × List Char) :=
  (keyword? "NAN".toList s).map (notANumber, ·)

/-- Reads a number with an optional sign. The word `nan` takes no sign. -/
def number? (s : List Char) : Option (Float × List Char) :=
  match s with
  | '-' :: r => (magnitude? r).map fun (x, r) => (-x, r)
  | '+' :: r => magnitude? r
  | _ => (magnitude? s).or (nan? s)

def ofText? (s : List Char) : Option Float :=
  let unsigned := match s with
    | '-' :: r => r
    | '+' :: r => r
    | _ => s
  match nan? unsigned with
  | some (x, []) => some x
  | _ =>
    match number? s with
    | some (x, []) => some x
    | _ => none

end SchemaSketch.Decimal
