import SchemaSketch.Text.Reader

/-!
What is taken out of a text before its tables are read: quotes around names, and lengths such as
`(50)` after types.
-/
namespace SchemaSketch.Schema

open Text

def isQuote (c : Char) : Bool :=
  c.toNat == 0x60 || c.toNat == 0x22 || c == '[' || c == ']'

def dropQuotes (s : List Char) : List Char :=
  s.filter (!isQuote ·)

def lengthTail? (s : List Char) : Option (List Char) := do
  let (_, s) ← run1? Char.isDigit (s.dropWhile isGap)
  exactly? [')'] (s.dropWhile isGap)

theorem length_of_lengthTail? {s r : List Char} (h : lengthTail? s = some r) :
    r.length < s.length := by
  simp only [lengthTail?, Option.bind_eq_bind, Option.bind_eq_some_iff] at h
  obtain ⟨⟨w, t⟩, hw, hr⟩ := h
  have h1 := length_of_run1? hw
  have h2 := length_of_exactly? hr
  have h3 := length_dropWhile_le isGap s
  have h4 := length_dropWhile_le isGap t
  simp only [List.length_cons, List.length_nil] at h2
  omega

/-- Goes through a text with what was kept of it so far, backwards. White space in front of a
length goes with it. -/
def dropLengthsFrom (kept s : List Char) : List Char :=
  match s with
  | [] => kept.reverse
  | c :: s =>
    if c = '(' then
      match _h : lengthTail? s with
      | some r => dropLengthsFrom (kept.dropWhile isSpace) r
      | none => dropLengthsFrom (c :: kept) s
    else dropLengthsFrom (c :: kept) s
termination_by s.length
decreasing_by
  · have := length_of_lengthTail? _h
    simp only [List.length_cons]; omega
  · simp
  · simp

/-- The text without its lengths. Only digits make a length: `DECIMAL(10,2)` stays as it is. -/
def dropLengths (s : List Char) : List Char :=
  dropLengthsFrom [] s

def cleanup (s : List Char) : List Char :=
  dropLengths (dropQuotes s)

end SchemaSketch.Schema
