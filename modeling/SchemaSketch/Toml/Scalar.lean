import SchemaSketch.Decimal.Numeral
import SchemaSketch.Toml.Value

/-!
TOML values that are written without quotes or brackets: numbers, truth values, dates and times.
-/
namespace SchemaSketch.Toml

open Text

def grouped? (p : Char → Bool) : List Char → Option (List Char)
  | [] => none
  | [c] => if p c then some [c] else none
  | c :: d :: s =>
    if !p c then none
    else if d = '_' then
      match s with
      | [] => none
      | e :: s => (grouped? p (e :: s)).map (c :: ·)
    else (grouped? p (d :: s)).map (c :: ·)

def wholeDigits? (s : List Char) : Option (List Char) :=
  match grouped? Char.isDigit s with
  | some ('0' :: _ :: _) => none
  | digits => digits

def hexValue (c : Char) : Nat :=
  if c.isDigit then c.toNat - '0'.toNat
  else if 'a'.toNat ≤ c.toNat then c.toNat - 'a'.toNat + 10
  else c.toNat - 'A'.toNat + 10

def isHexDigit (c : Char) : Bool :=
  c.isDigit || (0x61 ≤ c.toNat && c.toNat ≤ 0x66) || (0x41 ≤ c.toNat && c.toNat ≤ 0x46)

def valueInBase (base : Nat) (digits : List Char) : Nat :=
  digits.foldl (fun n c => base * n + hexValue c) 0

/-- Whole numbers must fit into 128 bits, with or without a sign. -/
def ofInteger (n : Int) : Value :=
  if -Int.pow 2 127 ≤ n ∧ n < Int.pow 2 128 then .integer n else .outOfRange

def splitSign : List Char → Bool × List Char
  | '-' :: s => (true, s)
  | '+' :: s => (false, s)
  | s => (false, s)

def integer? (s : List Char) : Option Value :=
  match s with
  | '0' :: 'x' :: r => (grouped? isHexDigit r).map fun d => ofInteger (valueInBase 16 d)
  | '0' :: 'o' :: r =>
    (grouped? (fun c => '0' ≤ c && c ≤ '7') r).map fun d => ofInteger (valueInBase 8 d)
  | '0' :: 'b' :: r =>
    (grouped? (fun c => c = '0' || c = '1') r).map fun d => ofInteger (valueInBase 2 d)
  | _ =>
    let (negative, r) := splitSign s
    (wholeDigits? r).map fun d =>
      let n : Int := valueInBase 10 d
      ofInteger (if negative then -n else n)

def cutAt (p : Char → Bool) (s : List Char) : List Char × Option (List Char) :=
  match s.dropWhile (!p ·) with
  | [] => (s, none)
  | _ :: rest => (s.takeWhile (!p ·), some rest)

def scale? : Option (List Char) → Option Int
  | none => some 0
  | some s =>
    let (negative, digits) := splitSign s
    (grouped? Char.isDigit digits).map fun d =>
      let n : Int := valueInBase 10 d
      if negative then -n else n

def fraction? : Option (List Char) → Option (List Char)
  | none => some []
  | some s => grouped? Char.isDigit s

def decimal? (s : List Char) : Option Value := do
  let (negative, unsigned) := splitSign s
  let (mantissa, power) := cutAt (fun c => c = 'e' || c = 'E') unsigned
  let (whole, fraction) := cutAt (· = '.') mantissa
  if fraction.isNone && power.isNone then none
  else
    let whole ← wholeDigits? whole
    let fraction ← fraction? fraction
    let exponent ← scale? power
    let numeral : Decimal.Numeral :=
      ⟨valueInBase 10 (whole ++ fraction), exponent - (fraction.length : Int)⟩
    let x := numeral.toFloat
    if x.isInf then some .outOfRange else some (.float (if negative then -x else x))

def special? (s : List Char) : Option Value :=
  let (negative, r) := splitSign s
  if r = "inf".toList then
    some (.float (if negative then -Decimal.infinity else Decimal.infinity))
  else if r = "nan".toList then some (.float Decimal.notANumber)
  else none

def fixedDigits? (count : Nat) (s : List Char) : Option (Nat × List Char) :=
  let digits := s.take count
  if digits.length = count ∧ digits.all Char.isDigit then
    some (valueInBase 10 digits, s.drop count)
  else none

def daysOfMonth (year month : Nat) : Nat :=
  if month = 2 then
    if year % 4 = 0 ∧ (year % 100 ≠ 0 ∨ year % 400 = 0) then 29 else 28
  else if month = 4 ∨ month = 6 ∨ month = 9 ∨ month = 11 then 30
  else 31

def date? (s : List Char) : Option (List Char) := do
  let (year, s) ← fixedDigits? 4 s
  let s ← exactly? ['-'] s
  let (month, s) ← fixedDigits? 2 s
  let s ← exactly? ['-'] s
  let (day, s) ← fixedDigits? 2 s
  if 1 ≤ month ∧ month ≤ 12 ∧ 1 ≤ day ∧ day ≤ daysOfMonth year month then some s else none

def seconds? (s : List Char) : Option (List Char) :=
  match s with
  | ':' :: s => do
    let (second, s) ← fixedDigits? 2 s
    if 60 < second then none
    else
      match s with
      | '.' :: s => (run1? Char.isDigit s).map (·.2)
      | _ => some s
  | _ => some s

def time? (s : List Char) : Option (List Char) := do
  let (hour, s) ← fixedDigits? 2 s
  let s ← exactly? [':'] s
  let (minute, s) ← fixedDigits? 2 s
  if hour ≤ 23 ∧ minute ≤ 59 then seconds? s else none

def isOffset (s : List Char) : Bool :=
  match s with
  | [] => true
  | ['Z'] => true
  | ['z'] => true
  | c :: s =>
    (c == '+' || c == '-') &&
      match fixedDigits? 2 s with
      | some (hour, ':' :: s) =>
        match fixedDigits? 2 s with
        | some (minute, []) => hour ≤ 23 && minute ≤ 59
        | _ => false
      | _ => false

def isMoment (s : List Char) : Bool :=
  match date? s with
  | some [] => true
  | some (c :: r) => (c == 'T' || c == 't' || c == ' ') && ((time? r).map isOffset).getD false
  | none => time? s == some []

def scalar? (s : List Char) : Option Value :=
  if s = "true".toList then some (.boolean true)
  else if s = "false".toList then some (.boolean false)
  else if isMoment s then some .moment
  else ((integer? s).or (decimal? s)).or (special? s)

end SchemaSketch.Toml
