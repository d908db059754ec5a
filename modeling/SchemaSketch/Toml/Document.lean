import SchemaSketch.Toml.Quoted

/-!
Reading TOML documents.
-/
namespace SchemaSketch.Toml

open Text

/-- Skips blanks, line ends and comments; the flag says that a comment has begun. Nothing is
answered for a character that may not stand in a comment. -/
def skipTrivia? (inComment : Bool) : List Char → Option (List Char)
  | [] => some []
  | '\n' :: s => skipTrivia? false s
  | '\r' :: '\n' :: s => skipTrivia? false s
  | c :: s =>
    if inComment then
      if isPlain c then skipTrivia? true s else none
    else if isBlank c then skipTrivia? false s
    else if c = '#' then skipTrivia? true s
    else some (c :: s)

def endOfLine? (s : List Char) : Option (List Char) :=
  match s.dropWhile isBlank with
  | '#' :: s =>
    match s.dropWhile isPlain with
    | [] => some []
    | r => lineEnd? r
  | [] => some []
  | r => lineEnd? r

def isBareKeyChar (c : Char) : Bool :=
  c.isAlphanum || c == '_' || c == '-'

def simpleKey? (s : List Char) : Option (String × List Char) :=
  let key :=
    if startsWithMarks 0x22 1 s then basicTail? (s.drop 1)
    else if startsWithMarks 0x27 1 s then literalTail? (s.drop 1)
    else run1? isBareKeyChar s
  key.map fun (k, r) => (String.ofList k, r)

def maxDepth : Nat := 80

def keys? (s : List Char) : Option ((List String × String) × List Char) :=
  match simpleKey? (s.dropWhile isBlank) with
  | none => none
  | some (key, r) =>
    match r.dropWhile isBlank with
    | '.' :: r =>
      if _h : r.length < s.length then
        (keys? r).map fun ((keys, last), rest) => ((key :: keys, last), rest)
      else none
    | r => some (([], key), r)
termination_by s.length

def path? (s : List Char) : Option ((List String × String) × List Char) :=
  (keys? s).filter fun ((keys, _), _) => keys.length < maxDepth

def skipBlanks? (s : List Char) : Option (List Char) :=
  some (s.dropWhile isBlank)

def assignment? (skip? : List Char → Option (List Char))
    (value? : List Char → Option (Value × List Char)) (s : List Char) :
    Option ((List String × String × Value) × List Char) := do
  let ((path, key), s) ← path? s
  let s ← skip? s
  let s ← exactly? ['='] s
  let s ← skip? s
  let (v, s) ← value? s
  some ((path, key, v), s)

/-- Reads items up to the closing mark, with commas between them and perhaps one behind the last.
Line ends and comments may stand around each. -/
def items? {α : Type} (item? : List Char → Option (α × List Char)) (close : Char)
    (s : List Char) : Option (List α × List Char) := do
  let r ← skipTrivia? false s
  match r with
  | [] => none
  | c :: r =>
    if c = close then some ([], r)
    else
      let (item, r) ← item? (c :: r)
      let r ← skipTrivia? false r
      match r with
      | [] => none
      | c :: r =>
        if c = close then some ([item], r)
        else if c = ',' then
          if _h : r.length < s.length then
            (items? item? close r).map fun (rest, r) => (item :: rest, r)
          else none
        else none
termination_by s.length

def isValueChar (c : Char) : Bool :=
  !(isBlank c || c == '\n' || c == '\r' || c == ',' || c == ']' || c == '\x7d' || c == '#' ||
    c == '=' || c == '[' || c == '\x7b')

def unquoted? (s : List Char) : Option (Value × List Char) :=
  let token := s.takeWhile isValueChar
  let rest := s.dropWhile isValueChar
  match date? token, rest with
  | some [], ' ' :: c :: r =>
    if c.isDigit then
      (scalar? (token ++ ' ' :: (c :: r).takeWhile isValueChar)).map
        (·, (c :: r).dropWhile isValueChar)
    else (scalar? token).map (·, rest)
  | _, _ => (scalar? token).map (·, rest)

def flatValue? (s : List Char) : Option (Value × List Char) :=
  if startsWithMarks 0x22 1 s || startsWithMarks 0x27 1 s then
    (quoted? s).map fun (text, rest) => (.string (String.ofList text), rest)
  else unquoted? s

/-- Reads a value in which arrays and inline tables are nested at most so deep. Inside an inline
table, line ends and comments may stand around an equals sign. -/
def value? : Nat → List Char → Option (Value × List Char)
  | 0, s => match s with
    | '[' :: _ => none
    | '\x7b' :: _ => none
    | _ => flatValue? s
  | depth + 1, s => match s with
    | '[' :: r => (items? (value? depth) ']' r).map fun (items, rest) => (.array items, rest)
    | '\x7b' :: r => do
      let (items, rest) ← items? (assignment? (skipTrivia? false) (value? depth)) '\x7d' r
      let table ← inlineTable? items (.table .inline [])
      some (table, rest)
    | _ => flatValue? s

def statement? (s : List Char) : Option (Statement × List Char) :=
  match s with
  | '[' :: '[' :: s => do
    let ((path, key), s) ← path? s
    let s ← exactly? [']', ']'] s
    some (.arrayHeader path key, s)
  | '[' :: s => do
    let ((path, key), s) ← path? s
    let s ← exactly? [']'] s
    some (.header path key, s)
  | s => do
    let ((path, key, v), s) ← assignment? skipBlanks? (value? maxDepth) s
    some (.assign path key v, s)

def statements? (s : List Char) : Option (List Statement) := do
  let r ← skipTrivia? false s
  match r with
  | [] => some []
  | _ =>
    let (statement, r) ← statement? r
    let r ← endOfLine? r
    if _h : r.length < s.length then (statements? r).map (statement :: ·) else none
termination_by s.length

def document? (text : String) : Option Value := do
  let statements ← statements? (match text.toList with
    | '\uFEFF' :: s => s
    | s => s)
  ofStatements? statements

end SchemaSketch.Toml
