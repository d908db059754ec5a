/-!
Texts as lists of characters: the classes of characters that readers ask for, trimming, and the
lines of a text.
-/
namespace SchemaSketch.Text

def isSpace (c : Char) : Bool :=
  let n := c.toNat
  (9 ≤ n && n ≤ 13) || n == 0x20 || n == 0x85 || n == 0xA0 || n == 0x1680 ||
    (0x2000 ≤ n && n ≤ 0x200A) || n == 0x2028 || n == 0x2029 || n == 0x202F ||
    n == 0x205F || n == 0x3000

def isGap (c : Char) : Bool :=
  c == ' ' || c == '\t' || c == '\r' || c == '\n'

def isBlank (c : Char) : Bool :=
  c == ' ' || c == '\t'

def trimStart (s : List Char) : List Char :=
  s.dropWhile isSpace

def trimEnd (s : List Char) : List Char :=
  (s.reverse.dropWhile isSpace).reverse

def trim (s : List Char) : List Char :=
  trimEnd (trimStart s)

def dropReturn : List Char → List Char
  | '\r' :: line => line
  | line => line

def linesFrom (line : List Char) : List Char → List (List Char)
  | [] => if line.isEmpty then [] else [line.reverse]
  | c :: s =>
    if c = '\n' then (dropReturn line).reverse :: linesFrom [] s
    else linesFrom (c :: line) s

/-- The lines of a text. A line ends at a line feed, and a carriage return before it is no part
of the line; what follows the last line feed is a line only if it is not empty. -/
def lines (s : List Char) : List (List Char) :=
  linesFrom [] s

theorem isSpace_of_isGap {c : Char} (h : isGap c = true) : isSpace c = true := by
  simp only [isGap, Bool.or_eq_true, beq_iff_eq] at h
  obtain ((rfl | rfl) | rfl) | rfl := h <;> decide

theorem isGap_of_isBlank {c : Char} (h : isBlank c = true) : isGap c = true := by
  simp only [isBlank, Bool.or_eq_true, beq_iff_eq] at h
  obtain rfl | rfl := h <;> decide

end SchemaSketch.Text
