import SchemaSketch.Text.Reader
import SchemaSketch.Toml.Scalar

/-!
TOML strings: between quotation marks with escapes, or between apostrophes as they are; on one line
or, between three marks, on several.
-/
namespace SchemaSketch.Toml

open Text

def isPlain (c : Char) : Bool :=
  c == '\t' || (0x20 ≤ c.toNat && c.toNat ≠ 0x7F)

def shortEscape? (c : Char) : Option Char :=
  match c with
  | 'b' => some '\x08'
  | 't' => some '\t'
  | 'n' => some '\n'
  | 'f' => some '\x0c'
  | 'r' => some '\r'
  | 'e' => some '\x1b'
  | '\\' => some '\\'
  | _ => if c.toNat = 0x22 then some c else none

def charOf? (n : Nat) : Option Char :=
  if n.isValidChar then some (Char.ofNat n) else none

def codePoint? (count : Nat) (s : List Char) : Option (Char × List Char) :=
  let digits := s.take count
  if digits.length = count ∧ digits.all isHexDigit then
    (charOf? (valueInBase 16 digits)).map (·, s.drop count)
  else none

def escape? : List Char → Option (Char × List Char)
  | [] => none
  | c :: s =>
    if c = 'x' then codePoint? 2 s
    else if c = 'u' then codePoint? 4 s
    else if c = 'U' then codePoint? 8 s
    else (shortEscape? c).map (·, s)

theorem length_of_codePoint? {count : Nat} {s r : List Char} {c : Char}
    (h : codePoint? count s = some (c, r)) : r.length ≤ s.length := by
  simp only [codePoint?] at h
  split at h
  · obtain ⟨d, -, hd⟩ := Option.map_eq_some_iff.1 h
    simp only [Prod.mk.injEq] at hd
    obtain ⟨-, rfl⟩ := hd
    simp
  · simp at h

theorem length_of_escape? {s r : List Char} {c : Char} (h : escape? s = some (c, r)) :
    r.length < s.length := by
  cases s with
  | nil => simp [escape?] at h
  | cons d s =>
    have short {x : Option Char} (h : x.map (·, s) = some (c, r)) : r.length < (d :: s).length := by
      obtain ⟨e, -, he⟩ := Option.map_eq_some_iff.1 h
      simp only [Prod.mk.injEq] at he
      obtain ⟨-, rfl⟩ := he
      simp
    have long {count : Nat} (h : codePoint? count s = some (c, r)) :
        r.length < (d :: s).length := by
      have := length_of_codePoint? h
      simp only [List.length_cons]; omega
    simp only [escape?] at h
    split at h
    · exact long h
    · split at h
      · exact long h
      · split at h
        · exact long h
        · exact short h

def basicTail? (s : List Char) : Option (List Char × List Char) :=
  match s with
  | [] => none
  | c :: s =>
    if c.toNat = 0x22 then some ([], s)
    else if c = '\\' then
      match _h : escape? s with
      | none => none
      | some (e, r) => (basicTail? r).map fun (text, rest) => (e :: text, rest)
    else if isPlain c then (basicTail? s).map fun (text, rest) => (c :: text, rest)
    else none
termination_by s.length
decreasing_by
  · have := length_of_escape? _h
    simp only [List.length_cons]; omega
  · simp

def literalTail? : List Char → Option (List Char × List Char)
  | [] => none
  | c :: s =>
    if c.toNat = 0x27 then some ([], s)
    else if isPlain c then (literalTail? s).map fun (text, rest) => (c :: text, rest)
    else none

def startsWithMarks (mark count : Nat) (s : List Char) : Bool :=
  (s.take count).length == count && (s.take count).all (·.toNat == mark)

/-- Splits a text at three marks. One or two more marks behind them belong to the string. -/
def closing? (mark : Nat) (s : List Char) : Option (List Char × List Char) :=
  if startsWithMarks mark 5 s then some (s.take 2, s.drop 5)
  else if startsWithMarks mark 4 s then some (s.take 1, s.drop 4)
  else if startsWithMarks mark 3 s then some ([], s.drop 3)
  else none

def lineEnd? : List Char → Option (List Char)
  | '\n' :: s => some s
  | '\r' :: '\n' :: s => some s
  | _ => none

theorem length_of_lineEnd? {s r : List Char} (h : lineEnd? s = some r) :
    r.length < s.length := by
  unfold lineEnd? at h
  split at h
  · cases h; simp
  · cases h; simp only [List.length_cons]; omega
  · simp at h

def skipWhite : List Char → List Char
  | '\r' :: '\n' :: s => skipWhite s
  | c :: s => if isBlank c || c = '\n' then skipWhite s else c :: s
  | [] => []

/-- Reads the rest of a string on several lines. A backslash at the end of a line takes the white
space that follows with it. -/
def longBasicTail? (s : List Char) : Option (List Char × List Char) :=
  match closing? 0x22 s with
  | some closed => some closed
  | none =>
    match s with
    | [] => none
    | c :: s =>
      if c = '\\' then
        match lineEnd? (s.dropWhile isBlank) with
        | some r =>
          if _h : (skipWhite r).length < (c :: s).length then longBasicTail? (skipWhite r) else none
        | none =>
          match _h : escape? s with
          | none => none
          | some (e, r) => (longBasicTail? r).map fun (text, rest) => (e :: text, rest)
      else
        match _h : lineEnd? (c :: s) with
        | some r => (longBasicTail? r).map fun (text, rest) => ('\n' :: text, rest)
        | none =>
          if isPlain c then (longBasicTail? s).map fun (text, rest) => (c :: text, rest) else none
termination_by s.length
decreasing_by
  · exact _h
  · have := length_of_escape? _h
    simp only [List.length_cons]; omega
  · exact length_of_lineEnd? _h
  · simp

def longLiteralTail? (s : List Char) : Option (List Char × List Char) :=
  match closing? 0x27 s with
  | some closed => some closed
  | none =>
    match s with
    | [] => none
    | c :: s =>
      match _h : lineEnd? (c :: s) with
      | some r => (longLiteralTail? r).map fun (text, rest) => ('\n' :: text, rest)
      | none =>
        if isPlain c then (longLiteralTail? s).map fun (text, rest) => (c :: text, rest) else none
termination_by s.length
decreasing_by
  · exact length_of_lineEnd? _h
  · simp

def afterOpening (s : List Char) : List Char :=
  (lineEnd? s).getD s

def quoted? (s : List Char) : Option (List Char × List Char) :=
  if startsWithMarks 0x22 3 s then longBasicTail? (afterOpening (s.drop 3))
  else if startsWithMarks 0x27 3 s then longLiteralTail? (afterOpening (s.drop 3))
  else if startsWithMarks 0x22 1 s then basicTail? (s.drop 1)
  else if startsWithMarks 0x27 1 s then literalTail? (s.drop 1)
  else none

end SchemaSketch.Toml
